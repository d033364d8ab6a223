import NotebookHub.Proofs.Coding
import NotebookHub.Proofs.Splitting
import NotebookHub.Uri.Address

namespace NotebookHub

namespace Text

theorem pieces_append_mark {mark : Char} {s : List Char} (h : mark ∉ s) (t : List Char) :
    pieces mark (s ++ mark :: t) = s :: pieces mark t := by
  induction s with
  | nil => simp [pieces]
  | cons c s ih =>
    have hc : c ≠ mark := fun he => h (by simp [he])
    simp [pieces, hc, ih fun hm => h (List.mem_cons_of_mem c hm)]

theorem pieces_of_not_mem {mark : Char} {s : List Char} (h : mark ∉ s) : pieces mark s = [s] := by
  induction s with
  | nil => rfl
  | cons c s ih =>
    have hc : c ≠ mark := fun he => h (by simp [he])
    simp [pieces, hc, ih fun hm => h (List.mem_cons_of_mem c hm)]

theorem not_mem_of_mem_pieces {mark : Char} {s p : List Char} (h : p ∈ pieces mark s) :
    mark ∉ p := by
  fun_induction pieces mark s generalizing p with
  | case1 => simp_all
  | case2 cs ih =>
    rcases List.mem_cons.mp h with rfl | h
    · simp
    · exact ih h
  | case3 c cs hc hp ih =>
    obtain rfl := List.mem_singleton.mp h
    simpa using fun he => hc he.symm
  | case4 c cs hc q qs hp ih =>
    rcases List.mem_cons.mp h with rfl | h
    · have hq : mark ∉ q := ih (by simp [hp])
      simp [hq, Ne.symm hc]
    · exact ih (by simp [hp, h])

end Text

namespace Path

/-- The names of a path: what can stand between two slashes and leaves a trace. -/
def Proper (p : Path) : Prop := ∀ n ∈ p.names, '/' ∉ n.toList ∧ isName n.toList = true

theorem proper_ofChars (s : List Char) : (ofChars s).Proper := by
  intro n hn
  obtain ⟨piece, hp, rfl⟩ := List.mem_map.mp hn
  obtain ⟨hm, hname⟩ := List.mem_filter.mp hp
  exact ⟨by simpa using Text.not_mem_of_mem_pieces hm, by simpa using hname⟩

/-- Cutting names that were joined by slashes gives the names. -/
theorem names_intercalate {names : List (List Char)}
    (h : ∀ n ∈ names, '/' ∉ n ∧ isName n = true) :
    (Text.pieces '/' (['/'].intercalate names)).filter isName = names := by
  induction names with
  | nil => rfl
  | cons n names ih =>
    obtain ⟨hn, hname⟩ := h n (by simp)
    have htail := ih fun m hm => h m (by simp [hm])
    cases names with
    | nil => simp [List.intercalate, Text.pieces_of_not_mem hn, hname]
    | cons m ms =>
      have hj : ['/'].intercalate (n :: m :: ms) = n ++ '/' :: ['/'].intercalate (m :: ms) := by
        simp [List.intercalate]
      rw [hj, Text.pieces_append_mark hn, List.filter_cons_of_pos hname, htail]

/-- Joined names do not start with a slash. -/
theorem head_intercalate {names : List (List Char)} (h : ∀ n ∈ names, '/' ∉ n ∧ isName n = true)
    (t : List Char) : ['/'].intercalate names ≠ '/' :: t := by
  cases names with
  | nil => simp [List.intercalate]
  | cons n names =>
    obtain ⟨hn, hname⟩ := h n (by simp)
    cases n with
    | nil => simp [isName] at hname
    | cons c n =>
      have hc : c ≠ '/' := fun he => hn (by simp [he])
      intro he
      cases names <;> simp [List.intercalate, hc] at he

/-- A path that is written out and read again is the same path. -/
theorem ofChars_chars {p : Path} (h : p.Proper) : ofChars p.chars = p := by
  obtain ⟨root, names⟩ := p
  have hl : ∀ n ∈ names.map String.toList, '/' ∉ n ∧ isName n = true := by
    intro n hn
    obtain ⟨s, hs, rfl⟩ := List.mem_map.mp hn
    exact h s hs
  have hback : (names.map String.toList).map String.ofList = names := by simp [Function.comp_def]
  have hnames := names_intercalate hl
  have hhead := head_intercalate hl
  generalize hj : ['/'].intercalate (names.map String.toList) = joined at hnames hhead
  cases root with
  | relative =>
    have hr : rootOf joined = .relative := by
      unfold rootOf
      split <;> simp_all
    simp [ofChars, chars, rootChars, hj, hr, hnames, hback]
  | single =>
    have hr : rootOf ('/' :: joined) = .single := by
      unfold rootOf
      split <;> simp_all
    simp [ofChars, chars, rootChars, hj, hr, Text.pieces, isName, hnames, hback]
  | double =>
    have hr : rootOf ('/' :: '/' :: joined) = .double := by
      cases joined with
      | nil => rfl
      | cons c t =>
        have hc : c ≠ '/' := fun he => hhead t (by rw [he])
        unfold rootOf
        split
        · rename_i he
          simp_all
        · rfl
        · rename_i hne he
          exact absurd (List.cons.inj he).2.symm (hne _)
        · rename_i hne
          exact absurd rfl (hne _)
    simp [ofChars, chars, rootChars, hj, hr, Text.pieces, isName, hnames, hback]

end Path

namespace Uri

def fileKey (p : Path) : Key := ⟨"file://" ++ String.ofList (percentEncode p.chars)⟩

theorem key_eq (u : String) : key u = (parts u.toList).bind fun p =>
    if String.ofList p.scheme = fileScheme then
      if (Path.ofChars (percentDecode p.path)).isAbsolute then
        .ok (fileKey (Path.ofChars (percentDecode p.path)))
      else .error .relativePath
    else .ok ⟨u⟩ := by
  unfold key
  cases parts u.toList with
  | error e => rfl
  | ok p =>
    by_cases hs : String.ofList p.scheme = fileScheme
    · by_cases ha : (Path.ofChars (percentDecode p.path)).isAbsolute = true <;>
        simp [hs, ha, ofPath, fileKey, bind, Except.bind, pure, Except.pure]
    · simp [hs, bind, Except.bind, pure, Except.pure]

/-- A file is filed under its path, which is absolute, and anything else under its URI. -/
theorem key_cases {u : String} {k : Key} (h : key u = .ok k) :
    ∃ p, parts u.toList = .ok p ∧
      (String.ofList p.scheme = fileScheme ∧
      (Path.ofChars (percentDecode p.path)).isAbsolute = true ∧
          k = fileKey (Path.ofChars (percentDecode p.path)) ∨
        String.ofList p.scheme ≠ fileScheme ∧ k = ⟨u⟩) := by
  rw [key_eq] at h
  cases hp : parts u.toList with
  | error e => simp [hp, Except.bind] at h
  | ok p =>
    refine ⟨p, rfl, ?_⟩
    simp only [hp, Except.bind] at h
    split at h
    · rename_i hs
      split at h
      · rename_i ha
        exact .inl ⟨hs, ha, (Except.ok.inj h).symm⟩
      · cases h
    · rename_i hs
      exact .inr ⟨hs, (Except.ok.inj h).symm⟩

theorem path_of_parts {u : String} {p : Parts} (h : parts u.toList = .ok p) :
    path u = .ok (if String.ofList p.scheme = fileScheme || String.ofList p.scheme = cellScheme then
      Path.ofChars (percentDecode p.path) else Path.ofChars u.toList) := by
  simp [path, h, Except.map]

/-- A URI that has a key has a path. -/
theorem exists_path {u : String} {k : Key} (h : key u = .ok k) : ∃ p, path u = .ok p := by
  obtain ⟨p, hp, _⟩ := key_cases h
  exact ⟨_, path_of_parts hp⟩

theorem chars_of_isAbsolute {p : Path} (h : p.isAbsolute = true) : ∃ t, p.chars = '/' :: t := by
  obtain ⟨root, names⟩ := p
  cases root with
  | relative => simp [Path.isAbsolute] at h
  | single | double => exact ⟨_, rfl⟩

theorem ne_of_mem_percentEncode {s : List Char} {c d : Char} (hc : c ∈ percentEncode s)
    (hsafe : isSafe d = false) (hsign : d ≠ '%') : c ≠ d := by
  rintro rfl
  rcases mem_percentEncode hc with he | he
  · exact hsign he
  · rw [hsafe] at he
    cases he

/-- What is encoded has nothing that splitting leaves out. -/
theorem untabbed_percentEncode (s : List Char) : untabbed (percentEncode s) = percentEncode s := by
  refine untabbed_of_visible fun c hc => ?_
  rcases mem_percentEncode hc with rfl | hc
  · decide
  · exact visible (p := isSafe) (by decide) hc

/-- A file's key, read as a URI, is a file without authority, and its path is that of the file,
encoded. -/
theorem parts_fileKey {p : Path} (h : p.isAbsolute = true) :
    parts (fileKey p).text.toList = .ok ⟨fileScheme.toList, [], percentEncode p.chars⟩ := by
  have htext : (fileKey p).text.toList =
      fileScheme.toList ++ ':' :: ('/' :: '/' :: percentEncode p.chars) := by
    simp [fileKey, fileScheme]
  have hplain : untabbed ('/' :: '/' :: percentEncode p.chars) =
      '/' :: '/' :: percentEncode p.chars := by
    simpa [untabbed] using untabbed_percentEncode p.chars
  obtain ⟨t, ht⟩ := chars_of_isAbsolute h
  have hfirst : percentEncode p.chars = '/' :: percentEncode t := by
    simp [ht, percentEncode, isSafe]
  have hcut : cutAuthority ('/' :: '/' :: percentEncode p.chars) = ([], percentEncode p.chars) := by
    simp [cutAuthority, hfirst, endsAuthority]
  have hwhole : (percentEncode p.chars).takeWhile (fun c => c ≠ '#' && c ≠ '?') =
      percentEncode p.chars := by
    refine List.takeWhile_eq_self_iff.mpr fun c hc => ?_
    simp [ne_of_mem_percentEncode hc (d := '#') (by decide) (by decide),
      ne_of_mem_percentEncode hc (d := '?') (by decide) (by decide)]
  rw [htext, parts_of_scheme (by decide), hplain, afterScheme, hcut]
  simp only [hwhole]
  rfl

/-- A file's key, read as a URI, is a file with the same key and the same path. -/
theorem key_fileKey {p : Path} (h : p.isAbsolute = true) (hp : p.Proper) :
    key (fileKey p).text = .ok (fileKey p) ∧ path (fileKey p).text = .ok p := by
  have hback : Path.ofChars (percentDecode (percentEncode p.chars)) = p := by
    rw [percentDecode_percentEncode, Path.ofChars_chars hp]
  constructor
  · rw [key_eq, parts_fileKey h]
    simp [Except.bind, hback, h]
  · rw [path_of_parts (parts_fileKey h)]
    simp [hback]

/-- A key, read as a URI, is its own key, and has the scheme and the path of what is filed under
it. -/
theorem readings_of_key {u : String} {k : Key} (h : key u = .ok k) :
    key k.text = .ok k ∧ scheme k.text = scheme u ∧ path k.text = path u := by
  obtain ⟨p, hp, ⟨hs, ha, rfl⟩ | ⟨_, rfl⟩⟩ := key_cases h
  · obtain ⟨hkey, hpath⟩ := key_fileKey ha (Path.proper_ofChars _)
    refine ⟨hkey, ?_, hpath.trans (by simp [path_of_parts hp, hs])⟩
    simp [scheme, parts_fileKey ha, hp, hs, Except.map]
  · exact ⟨h, rfl, rfl⟩

/-- Documents with one key have one path. -/
theorem path_eq_of_key_eq {u v : String} {k : Key} (hu : key u = .ok k) (hv : key v = .ok k) :
    path u = path v := by
  rw [← (readings_of_key hu).2.2, (readings_of_key hv).2.2]

end Uri

namespace Address

def Sound (a : Address) : Prop := Address.of a.uri = .ok a

theorem of_eq_ok {u : String} {a : Address} (h : Address.of u = .ok a) :
    a.uri = u ∧ Uri.key u = .ok a.key ∧ Uri.path u = .ok a.path := by
  unfold Address.of at h
  cases hk : Uri.key u with
  | error e => simp [hk, bind, Except.bind] at h
  | ok k =>
    cases hp : Uri.path u with
    | error e => simp [hk, hp, bind, Except.bind] at h
    | ok p =>
      simp only [hk, hp, bind, Except.bind, pure, Except.pure, Except.ok.injEq] at h
      subst h
      exact ⟨rfl, rfl, rfl⟩

theorem of_key {u : String} {k : Key} (h : Uri.key u = .ok k) :
    ∃ a, Address.of u = .ok a ∧ a.key = k := by
  obtain ⟨p, hp⟩ := Uri.exists_path h
  exact ⟨⟨u, k, p⟩, by simp [Address.of, h, hp, bind, Except.bind, pure, Except.pure], rfl⟩

theorem sound_of {u : String} {a : Address} (h : Address.of u = .ok a) : a.Sound := by
  have hu := (of_eq_ok h).1
  rw [Sound, hu, h]

theorem Sound.key {a : Address} (h : a.Sound) : Uri.key a.uri = .ok a.key := (of_eq_ok h).2.1

theorem Sound.path_eq {a b : Address} (ha : a.Sound) (hb : b.Sound) (h : a.key = b.key) :
    a.path = b.path := by
  have hpath := Uri.path_eq_of_key_eq ha.key (h ▸ hb.key)
  rw [(of_eq_ok ha).2.2, (of_eq_ok hb).2.2] at hpath
  exact Except.ok.inj hpath

end Address
end NotebookHub
