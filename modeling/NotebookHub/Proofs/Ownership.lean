import NotebookHub.Proofs.Addresses
import NotebookHub.Workspace.Roster

namespace NotebookHub

def Roster.ownersOf (r : Roster) (uri : String) : Except Uri.Error (List Workspace) :=
  (Uri.path uri).map r.owners

namespace Uri

/-- A URI has no key if it cannot be split, or is a file whose path has no root. -/
theorem key_eq_error_iff {u : String} {e : Error} : key u = .error e ↔ scheme u = .error e ∨
    scheme u = .ok fileScheme ∧ (∃ p, path u = .ok p ∧ p.isAbsolute = false) ∧
      e = .relativePath := by
  rw [key_eq]
  cases hp : parts u.toList with
  | error e' => simp [scheme, hp, Except.bind, Except.map]
  | ok p =>
    by_cases hs : String.ofList p.scheme = fileScheme
    · have hfile : scheme u = .ok fileScheme := by simp [scheme, hp, hs, Except.map]
      have hpath : path u = .ok (Path.ofChars (percentDecode p.path)) := by
        simp [path_of_parts hp, hs]
      cases ha : (Path.ofChars (percentDecode p.path)).isAbsolute with
      | true => simp [hs, hfile, hpath, ha, Except.bind]
      | false => simp [hs, hfile, hpath, ha, Except.bind, eq_comm (b := e)]
    · simp [scheme, hp, hs, Except.bind, Except.map]

theorem key_of_file {u : String} {k : Key} {p : Path} (hk : key u = .ok k)
    (hs : scheme u = .ok fileScheme) (hp : path u = .ok p) : k = fileKey p := by
  obtain ⟨q, hq, hcases⟩ := key_cases hk
  have hscheme : String.ofList q.scheme = fileScheme := by simpa [scheme, hq, Except.map] using hs
  obtain ⟨_, _, rfl⟩ | ⟨hne, _⟩ := hcases
  · rw [path_of_parts hq] at hp
    simp only [hscheme, decide_true, Bool.true_or, if_true, Except.ok.injEq] at hp
    rw [hp]
  · exact absurd hscheme hne

theorem key_of_not_file {u : String} {k : Key} (hk : key u = .ok k)
    (hs : scheme u ≠ .ok fileScheme) : k = ⟨u⟩ := by
  obtain ⟨q, hq, ⟨hfile, _, _⟩ | ⟨_, rfl⟩⟩ := key_cases hk
  · exact absurd (by simp [scheme, hq, hfile, Except.map]) hs
  · rfl

theorem key_eq_iff {u v : String} {k l : Key} (hu : key u = .ok k) (hv : key v = .ok l) :
    k = l ↔ u = v ∨ scheme u = .ok fileScheme ∧ scheme v = .ok fileScheme ∧ path u = path v := by
  constructor
  · rintro rfl
    have hscheme : scheme u = scheme v := by
      rw [← (readings_of_key hu).2.1, (readings_of_key hv).2.1]
    by_cases hs : scheme u = .ok fileScheme
    · exact .inr ⟨hs, hscheme ▸ hs, path_eq_of_key_eq hu hv⟩
    · have huv := (key_of_not_file hu hs).symm.trans (key_of_not_file hv (hscheme ▸ hs))
      exact .inl (congrArg Key.text huv)
  · rintro (rfl | ⟨hus, hvs, hpath⟩)
    · exact Except.ok.inj (hu.symm.trans hv)
    · obtain ⟨p, hp⟩ := exists_path hu
      rw [key_of_file hu hus hp, key_of_file hv hvs (hpath ▸ hp)]

/-- The key of a URI is a canonical form. It fails where the URI cannot be split and where a file's
path has no root, and nowhere else; it is its own key and keeps the path; and URIs share it just
when they are the same, or are files of one path. So those who share it are owned by the same
workspaces. -/
theorem key_is_canonical (u v : String) :
    (∀ e, key u = .error e ↔ scheme u = .error e ∨
      scheme u = .ok fileScheme ∧ (∃ p, path u = .ok p ∧ p.isAbsolute = false) ∧
        e = .relativePath) ∧
    (∀ k, key u = .ok k → key k.text = .ok k ∧ path k.text = path u) ∧
    (∀ k l, key u = .ok k → key v = .ok l →
      (k = l ↔ u = v ∨ scheme u = .ok fileScheme ∧ scheme v = .ok fileScheme ∧ path u = path v)) ∧
    (∀ k, key u = .ok k → key v = .ok k →
      ∀ r : Roster, ∃ owners, r.ownersOf u = .ok owners ∧ r.ownersOf v = .ok owners) := by
  refine ⟨fun _ => key_eq_error_iff, fun k hk => ?_, fun _ _ => key_eq_iff, fun k hu hv r => ?_⟩
  · obtain ⟨hkey, _, hpath⟩ := readings_of_key hk
    exact ⟨hkey, hpath⟩
  · obtain ⟨p, hp⟩ := exists_path hu
    have hpv : path v = .ok p := path_eq_of_key_eq hu hv ▸ hp
    exact ⟨r.owners p,
      by simp [Roster.ownersOf, hp, Except.map], by simp [Roster.ownersOf, hpv, Except.map]⟩

/-- Two spellings of one file, and a file whose path has no root. -/
theorem key_is_canonical_respelled :
    key "FILE://host/a//%2e/%62%20%25;#x" = .ok ⟨"file:///a/b%20%25%3B"⟩ ∧
    key "file:///a/b%20%25%3B" = .ok ⟨"file:///a/b%20%25%3B"⟩ ∧
    path "file:///a/b%20%25%3B" = path "FILE://host/a//%2e/%62%20%25;#x" ∧
    (∀ r : Roster, ∃ owners, r.ownersOf "FILE://host/a//%2e/%62%20%25;#x" = .ok owners ∧
      r.ownersOf "file:///a/b%20%25%3B" = .ok owners) ∧
    key "file:n.ipynb" = .error .relativePath := by
  have hu : key "FILE://host/a//%2e/%62%20%25;#x" = .ok ⟨"file:///a/b%20%25%3B"⟩ := by
    decide +kernel
  have hscheme : scheme "file:n.ipynb" = .ok fileScheme := by decide +kernel
  have hpath : path "file:n.ipynb" = .ok ⟨.relative, ["n.ipynb"]⟩ := by decide +kernel
  obtain ⟨_, hself, _, howners⟩ :=
    key_is_canonical "FILE://host/a//%2e/%62%20%25;#x" "file:///a/b%20%25%3B"
  obtain ⟨hv, hsame⟩ := hself _ hu
  obtain ⟨hfails, _⟩ := key_is_canonical "file:n.ipynb" "file:n.ipynb"
  exact ⟨hu, hv, hsame, howners _ hu hv, (hfails _).mpr (.inr ⟨hscheme, ⟨_, hpath, rfl⟩, rfl⟩)⟩

/-- The path of a file or a cell lies between the scheme and the query or fragment. -/
theorem path_of_scheme {s : String} (hs : s = fileScheme ∨ s = cellScheme) (r : String) :
    path (s ++ ":" ++ r) = (afterScheme (untabbed r.toList)).map
      fun q => Path.ofChars (percentDecode q.2) := by
  have htext : (s ++ ":" ++ r).toList = s.toList ++ ':' :: r.toList := by simp
  have hname : isSchemeName s.toList = true ∧ String.ofList (s.toList.map Char.toLower) = s := by
    rcases hs with rfl | rfl <;> decide +kernel
  unfold path
  rw [htext, parts_of_scheme hname.1]
  cases afterScheme (untabbed r.toList) with
  | error e => rfl
  | ok q => rcases hs with rfl | rfl <;> simp [Except.map, hname.2]

theorem path_of_fragment {s : String} (hs : s = fileScheme ∨ s = cellScheme) (r f : String) :
    path (s ++ ":" ++ r ++ "#" ++ f) = path (s ++ ":" ++ r) := by
  have htext : untabbed (r ++ "#" ++ f).toList = untabbed r.toList ++ '#' :: untabbed f.toList := by
    simp [untabbed]
  have happend : s ++ ":" ++ r ++ "#" ++ f = s ++ ":" ++ (r ++ "#" ++ f) := by
    simp only [String.append_assoc]
  rw [happend, path_of_scheme hs, path_of_scheme hs, htext, afterScheme_fragment]

/-- Whatever follows the scheme, a cell and a file have the same path, or fail alike, and no
fragment makes any difference. So all of them have the same owners. -/
theorem cell_owned_with_file (r f : String) (roster : Roster) :
    path ("vscode-notebook-cell:" ++ r) = path ("file:" ++ r) ∧
    path ("file:" ++ r ++ "#" ++ f) = path ("file:" ++ r) ∧
    path ("vscode-notebook-cell:" ++ r ++ "#" ++ f) = path ("vscode-notebook-cell:" ++ r) ∧
    roster.ownersOf ("vscode-notebook-cell:" ++ r) = roster.ownersOf ("file:" ++ r) ∧
    roster.ownersOf ("file:" ++ r ++ "#" ++ f) = roster.ownersOf ("file:" ++ r) ∧
    roster.ownersOf ("vscode-notebook-cell:" ++ r ++ "#" ++ f) =
      roster.ownersOf ("file:" ++ r) := by
  have hcell := path_of_scheme (s := cellScheme) (.inr rfl) r
  have hfile := path_of_scheme (s := fileScheme) (.inl rfl) r
  have hsame : path ("vscode-notebook-cell:" ++ r) = path ("file:" ++ r) := hcell.trans hfile.symm
  have hfragment := path_of_fragment (s := fileScheme) (.inl rfl) r f
  have hcellFragment := path_of_fragment (s := cellScheme) (.inr rfl) r f
  refine ⟨hsame, hfragment, hcellFragment, ?_, ?_, ?_⟩
  · exact congrArg (Except.map roster.owners) hsame
  · exact congrArg (Except.map roster.owners) hfragment
  · exact congrArg (Except.map roster.owners) (hcellFragment.trans hsame)

end Uri
end NotebookHub
