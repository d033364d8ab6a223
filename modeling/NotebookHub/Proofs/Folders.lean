import Mathlib.Data.List.Induction
import Mathlib.Data.List.Infix
import NotebookHub.Hub.Folders
import NotebookHub.Proofs.Tables

namespace NotebookHub

inductive FolderCall
  | add (f : Folder)
  | remove (uri : String)
  deriving DecidableEq, Repr

namespace FolderCall

def adds? : FolderCall → Option (String × Path)
  | .add f => (Uri.path f.uri).toOption.map fun root => ((Roster.folder root f.name).name, root)
  | .remove _ => none

def removes? : FolderCall → Option Path
  | .add _ => none
  | .remove uri => (Uri.path uri).toOption

/-- A folder at `r` was added and not removed since. -/
def Added (calls : List FolderCall) (r : Path) : Prop :=
  ∃ before c after n, calls = before ++ c :: after ∧ c.adds? = some (n, r) ∧
    ∀ c' ∈ after, c'.removes? ≠ some r

/-- A folder at `r` was added under the name `n` and not removed since, nor did another folder get
the name. -/
def Stands (calls : List FolderCall) (n : String) (r : Path) : Prop :=
  ∃ before c after, calls = before ++ c :: after ∧ c.adds? = some (n, r) ∧
    ∀ c' ∈ after, c'.removes? ≠ some r ∧ ∀ r', c'.adds? = some (n, r') → r' = r

/-- No folder at `r` that was added and not removed since has its name still. -/
def Displaced (calls : List FolderCall) (r : Path) : Prop := ∀ n, ¬ Stands calls n r

/-- The name that the call takes out: the first of those that lead to its root. -/
def takes? (t : Table String Path) (c : FolderCall) : Option String :=
  c.removes?.bind fun r => (t.entries.find? (·.2 = r)).map Prod.fst

def list (t : Table String Path) (c : FolderCall) : Table String Path :=
  match c.adds?, takes? t c with
  | some (n, r), _ => t.insert n r
  | none, some n => t.erase n
  | none, none => t

/-- The names in use and their roots, in the order in which the names came. -/
def listed (calls : List FolderCall) : Table String Path := calls.foldl list .empty

/-- A folder at `r` stood under the name `n` when `r` was to be removed, but another of its names
was taken out. The name was neither taken out nor given to a folder since. -/
def LeftBehind (calls : List FolderCall) (n : String) (r : Path) : Prop :=
  ∃ before c after, calls = before ++ c :: after ∧ c.removes? = some r ∧ Stands before n r ∧
    takes? (listed before) c ≠ some n ∧
    ∀ before' c' after', after = before' ++ c' :: after' →
      (∀ r', c'.adds? ≠ some (n, r')) ∧ takes? (listed (before ++ c :: before')) c' ≠ some n

/-- The root `r` was to be removed when folders stood at it under two names. -/
def HalfRemoved (calls : List FolderCall) (r : Path) : Prop :=
  ∃ before c after, calls = before ++ c :: after ∧ c.removes? = some r ∧
    ∃ n n', n ≠ n' ∧ Stands before n r ∧ Stands before n' r

theorem removes?_of_adds? {c : FolderCall} {x : String × Path} (h : c.adds? = some x) :
    c.removes? = none := by
  cases c with
  | add f => rfl
  | remove uri => cases h

variable {calls : List FolderCall} {c : FolderCall} {n : String} {r : Path}

/-- Where a list with one more member splits: at that member or before. -/
theorem split_snoc {l b a : List FolderCall} {x y : FolderCall} (h : l ++ [x] = b ++ y :: a) :
    (l = b ∧ x = y ∧ a = []) ∨ ∃ a', a = a' ++ [x] ∧ l = b ++ y :: a' := by
  rcases List.eq_nil_or_concat a with rfl | ⟨a', z, rfl⟩
  · obtain ⟨hl, hx⟩ := List.append_inj' h rfl
    exact .inl ⟨hl, by simpa using hx, rfl⟩
  · rw [List.concat_eq_append, ← List.cons_append, ← List.append_assoc] at h
    obtain ⟨hl, hx⟩ := List.append_inj' h rfl
    exact .inr ⟨a', by simp [List.cons.inj hx], hl⟩

theorem stands_snoc : Stands (calls ++ [c]) n r ↔
    c.adds? = some (n, r) ∨
      (Stands calls n r ∧ c.removes? ≠ some r ∧ ∀ r', c.adds? = some (n, r') → r' = r) := by
  constructor
  · rintro ⟨before, d, after, hsplit, hd, hafter⟩
    rcases split_snoc hsplit with ⟨rfl, rfl, rfl⟩ | ⟨after, rfl, rfl⟩
    · exact .inl hd
    · exact .inr ⟨⟨before, d, after, rfl, hd, fun e he => hafter e (List.mem_append_left _ he)⟩,
        hafter c (by simp)⟩
  · rintro (hc | ⟨⟨before, d, after, rfl, hd, hafter⟩, hc⟩)
    · exact ⟨calls, c, [], rfl, hc, by simp⟩
    · refine ⟨before, d, after ++ [c], by simp, hd, fun e he => ?_⟩
      rcases List.mem_append.mp he with he | he
      · exact hafter e he
      · rwa [List.mem_singleton.mp he]

theorem leftBehind_snoc : LeftBehind (calls ++ [c]) n r ↔
    takes? (listed calls) c ≠ some n ∧
      ((c.removes? = some r ∧ Stands calls n r) ∨
        (LeftBehind calls n r ∧ ∀ r', c.adds? ≠ some (n, r'))) := by
  constructor
  · rintro ⟨before, d, after, hsplit, hd, hn, hother, hafter⟩
    rcases split_snoc hsplit with ⟨rfl, rfl, rfl⟩ | ⟨after, rfl, rfl⟩
    · exact ⟨hother, .inl ⟨hd, hn⟩⟩
    · obtain ⟨hadds, htakes⟩ := hafter after c [] rfl
      refine ⟨htakes, .inr ⟨⟨before, d, after, rfl, hd, hn, hother, ?_⟩, hadds⟩⟩
      intro before' c' after' hafter'
      exact hafter before' c' (after' ++ [c]) (by simp [hafter'])
  · rintro ⟨htakes, ⟨hc, hn⟩ | ⟨⟨before, d, after, rfl, hd, hn, hother, hafter⟩, hadds⟩⟩
    · exact ⟨calls, c, [], rfl, hc, hn, htakes, by simp⟩
    · refine ⟨before, d, after ++ [c], by simp, hd, hn, hother, ?_⟩
      intro before' c' after' hsplit
      rcases split_snoc hsplit with ⟨rfl, rfl, rfl⟩ | ⟨after', rfl, hafter'⟩
      · exact ⟨hadds, htakes⟩
      · exact hafter before' c' after' hafter'

theorem HalfRemoved.append (h : HalfRemoved calls r) (later : List FolderCall) :
    HalfRemoved (calls ++ later) r := by
  obtain ⟨before, c, after, rfl, hc, htwo⟩ := h
  exact ⟨before, c, after ++ later, by simp, hc, htwo⟩

theorem Stands.added (h : Stands calls n r) : Added calls r := by
  obtain ⟨before, c, after, rfl, hc, hafter⟩ := h
  exact ⟨before, c, after, n, rfl, hc, fun c' hc' => (hafter c' hc').1⟩

theorem not_added_of_removes (hc : c.removes? = some r) : ¬ Added (calls ++ [c]) r := by
  rintro ⟨before, d, after, m, hsplit, hd, hafter⟩
  rcases split_snoc hsplit with ⟨_, rfl, _⟩ | ⟨after, rfl, _⟩
  · rw [removes?_of_adds? hd] at hc
    cases hc
  · exact hafter c (by simp) hc

theorem added_and_not_displaced_iff :
    (Added calls r ∧ ¬ Displaced calls r) ↔ ∃ n, Stands calls n r := by
  unfold Displaced
  rw [not_forall_not]
  exact ⟨And.right, fun ⟨n, hn⟩ => ⟨hn.added, n, hn⟩⟩

theorem listed_snoc (calls : List FolderCall) (c : FolderCall) :
    listed (calls ++ [c]) = list (listed calls) c := by
  simp [listed]

/-- What is taken out leads to the root that is removed. -/
theorem takes?_eq_some {t : Table String Path} (h : takes? t c = some n) :
    ∃ q, c.removes? = some q ∧ t.get? n = some q := by
  obtain ⟨q, hq, hfound⟩ := Option.bind_eq_some_iff.mp h
  obtain ⟨⟨m, q'⟩, hfind, rfl⟩ := Option.map_eq_some_iff.mp hfound
  obtain rfl : q' = q := by simpa using List.find?_some hfind
  exact ⟨q', hq, Table.get?_eq_some_iff.mpr (List.mem_of_find?_eq_some hfind)⟩

/-- Where some name leads to the root that is removed, one is taken out. -/
theorem exists_takes? {t : Table String Path} (hc : c.removes? = some r) (hn : t.get? n = some r) :
    ∃ m, takes? t c = some m := by
  have hsome : (t.entries.find? (·.2 = r)).isSome = true :=
    List.find?_isSome.mpr ⟨(n, r), Table.get?_eq_some_iff.mp hn, by simp⟩
  obtain ⟨e, he⟩ := Option.isSome_iff_exists.mp hsome
  exact ⟨e.1, by simp [takes?, hc, he]⟩

/-- The names that lead to a root are those that stand for it and those that were left behind. -/
theorem listed_iff : (listed calls).get? n = some r ↔ Stands calls n r ∨ LeftBehind calls n r := by
  induction calls using List.reverseRecOn generalizing n r with
  | nil => simp [listed, Stands, LeftBehind]
  | append_singleton calls c ih =>
    rw [listed_snoc, stands_snoc, leftBehind_snoc]
    unfold list
    cases hadds : c.adds? with
    | some x =>
      obtain ⟨m, q⟩ := x
      have htakes : takes? (listed calls) c = none := by rw [takes?, removes?_of_adds? hadds]; rfl
      have hremoves := removes?_of_adds? hadds
      by_cases hm : m = n
      · subst hm
        simp [htakes, hremoves, eq_comm]
      · simp [htakes, hremoves, hm, ih]
    | none =>
      cases htakes : takes? (listed calls) c with
      | some m =>
        obtain ⟨q, hremoves, hm⟩ := takes?_eq_some htakes
        by_cases hn : m = n
        · -- the name leads to the root that is removed, so it stands for no other
          subst hn
          have hother (hstands : Stands calls m r) : q = r :=
            Option.some.inj (hm.symm.trans (ih.mpr (.inl hstands)))
          simpa [hremoves] using hother
        · by_cases hq : q = r
          · subst hq
            simp [hremoves, hn, ih]
          · simp [hremoves, hn, hq, ih]
      | none =>
        have hkept (hn : Stands calls n r) : c.removes? ≠ some r := by
          intro hc
          obtain ⟨m, hm⟩ := exists_takes? hc (ih.mpr (.inl hn))
          rw [htakes] at hm
          cases hm
        simp only [ih, reduceCtorEq, false_or, ne_eq, not_false_iff, true_and, false_implies,
          implies_true, and_true]
        constructor
        · exact Or.imp (fun hn => ⟨hn, hkept hn⟩) .inr
        · rintro (⟨hn, _⟩ | ⟨hc, hn⟩ | hleft)
          · exact .inl hn
          · exact absurd hc (hkept hn)
          · exact .inr hleft

/-- Nothing is left behind of a root that had one name whenever it was to be removed. -/
theorem LeftBehind.halfRemoved (h : LeftBehind calls n r) : HalfRemoved calls r := by
  induction calls using List.reverseRecOn generalizing n with
  | nil => simp [LeftBehind] at h
  | append_singleton calls c ih =>
    obtain ⟨htakes, ⟨hc, hn⟩ | ⟨hleft, _⟩⟩ := leftBehind_snoc.mp h
    · obtain ⟨m, hm⟩ := exists_takes? hc (listed_iff.mpr (.inl hn))
      obtain ⟨q, hq, hlisted⟩ := takes?_eq_some hm
      obtain rfl : q = r := Option.some.inj (hq.symm.trans hc)
      have hne : n ≠ m := by
        rintro rfl
        exact htakes hm
      rcases listed_iff.mp hlisted with hstands | hleft
      · exact ⟨calls, c, [], rfl, hc, n, m, hne, hn, hstands⟩
      · exact (ih hleft).append [c]
    · exact (ih hleft).append [c]

/-- Of two names one is taken out and the other stays. -/
theorem exists_leftBehind {n' : String} (hc : c.removes? = some r) (hne : n ≠ n')
    (hn : Stands calls n r) (hn' : Stands calls n' r) : ∃ m, LeftBehind (calls ++ [c]) m r := by
  by_cases htakes : takes? (listed calls) c = some n
  · refine ⟨n', leftBehind_snoc.mpr ⟨?_, .inl ⟨hc, hn'⟩⟩⟩
    rw [htakes]
    exact fun h => hne (Option.some.inj h)
  · exact ⟨n, leftBehind_snoc.mpr ⟨htakes, .inl ⟨hc, hn⟩⟩⟩

/-- A name cannot stand for a root and be left behind of it. -/
theorem LeftBehind.not_stands (h : LeftBehind calls n r) : ¬ Stands calls n r := by
  induction calls using List.reverseRecOn with
  | nil => simp [Stands]
  | append_singleton calls c ih =>
    rw [stands_snoc]
    rcases leftBehind_snoc.mp h with ⟨_, ⟨hc, _⟩ | ⟨hleft, hadds⟩⟩
    · rintro (hn | ⟨_, hkept, _⟩)
      · rw [removes?_of_adds? hn] at hc
        cases hc
      · exact hkept hc
    · rintro (hn | ⟨hn, _⟩)
      · exact hadds r hn
      · exact ih hleft hn

section Decide

def rename (r : Path) (names : List String) (c : FolderCall) : List String :=
  match c.adds? with
  | some (n, r') => if r' = r then n :: names else names.filter (· ≠ n)
  | none => if c.removes? = some r then [] else names

def names (calls : List FolderCall) (r : Path) : List String := calls.foldl (rename r) []

theorem names_snoc (calls : List FolderCall) (c : FolderCall) (r : Path) :
    names (calls ++ [c]) r = rename r (names calls r) c := by
  simp [names]

theorem mem_names_iff : n ∈ names calls r ↔ Stands calls n r := by
  induction calls using List.reverseRecOn with
  | nil => simp [names, Stands]
  | append_singleton calls c ih =>
    rw [names_snoc, stands_snoc, ← ih]
    unfold rename
    cases hc : c.adds? with
    | none =>
      by_cases hr : c.removes? = some r <;> simp [hr]
    | some x =>
      obtain ⟨m, q⟩ := x
      have hr := removes?_of_adds? hc
      by_cases hq : q = r
      · subst hq
        simp [hr, eq_comm]
      · by_cases hm : m = n
        · subst hm
          simp [hq]
        · simp [hq, hr, hm, Ne.symm hm]

instance : Decidable (Stands calls n r) := decidable_of_iff _ mem_names_iff

instance : Decidable (Displaced calls r) :=
  decidable_of_iff (names calls r = [])
    (by simp [Displaced, ← mem_names_iff, List.eq_nil_iff_forall_not_mem])

theorem leftBehind_iff :
    LeftBehind calls n r ↔ (listed calls).get? n = some r ∧ ¬ Stands calls n r :=
  ⟨fun h => ⟨listed_iff.mpr (.inr h), h.not_stands⟩,
    fun ⟨hlisted, hn⟩ => (listed_iff.mp hlisted).resolve_left hn⟩

instance : Decidable (∃ n, LeftBehind calls n r) :=
  decidable_of_iff (∃ e ∈ (listed calls).entries, e.2 = r ∧ ¬ Stands calls e.1 r) (by
    simp only [leftBehind_iff, Table.get?_eq_some_iff]
    constructor
    · rintro ⟨⟨n, q⟩, he, rfl, hn⟩
      exact ⟨n, he, hn⟩
    · rintro ⟨n, he, hn⟩
      exact ⟨(n, r), he, rfl, hn⟩)

end Decide

end FolderCall

namespace Roster

variable {r : Roster} {t : Table String Path} {p q : Path}

/-- The members are filed under their names and stand at the roots listed, in that order; the
fallback has no root. -/
structure Lists (r : Roster) (t : Table String Path) : Prop where
  members : r.members.entries.map (Prod.map id Workspace.root) = t.entries.map (Prod.map id some)
  named : ∀ n w, r.members.get? n = some w → w.name = n
  rootless : ∀ w ∈ r.fallback, w.root = none

theorem start_lists (withFallback : Bool) : (start withFallback).Lists .empty where
  members := rfl
  named n w hw := by simp [start] at hw
  rootless w hw := by
    cases withFallback with
    | false => simp [start] at hw
    | true =>
      obtain rfl : ⟨fallbackName, none, .empty⟩ = w := by simpa [start] using hw
      rfl

theorem Lists.add (hr : r.Lists t) (root : Path) (name : Option String) :
    (r.add (folder root name)).Lists (t.insert (folder root name).name root) where
  members := by
    simp only [Roster.add, Table.insert, Table.map_write, hr.members]
    rfl
  named n w hw := by
    rw [Roster.add, Table.get?_insert] at hw
    split at hw
    · rename_i hn
      rw [← Option.some.inj hw]
      exact hn
    · exact hr.named n w hw
  rootless := hr.rootless

theorem Lists.rooted (hr : r.Lists t) {n : String} {w : Workspace}
    (hw : r.members.get? n = some w) :
    ∃ q, w.root = some q := by
  have hm : (n, w.root) ∈ t.entries.map (Prod.map id some) := by
    rw [← hr.members]
    exact List.mem_map_of_mem (f := Prod.map id Workspace.root) (Table.get?_eq_some_iff.mp hw)
  obtain ⟨e, _, he⟩ := List.mem_map.mp hm
  exact ⟨e.2, (congrArg Prod.snd he).symm⟩

/-- A name leads to a root just when a member of that name is there. -/
theorem Lists.get?_eq_some_iff (hr : r.Lists t) {n : String} :
    t.get? n = some q ↔ ∃ w, r.members.get? n = some w ∧ w.root = some q := by
  simp only [Table.get?_eq_some_iff]
  constructor
  · intro hn
    have hm : (n, some q) ∈ r.members.entries.map (Prod.map id Workspace.root) := by
      rw [hr.members]
      exact List.mem_map_of_mem (f := Prod.map id some) hn
    obtain ⟨⟨_, w⟩, hw, he⟩ := List.mem_map.mp hm
    obtain ⟨rfl, hroot⟩ := Prod.mk.inj he
    exact ⟨w, hw, hroot⟩
  · rintro ⟨w, hw, hroot⟩
    have hm : (n, some q) ∈ t.entries.map (Prod.map id some) := by
      rw [← hr.members, ← hroot]
      exact List.mem_map_of_mem (f := Prod.map id Workspace.root) hw
    obtain ⟨⟨_, q'⟩, hq, he⟩ := List.mem_map.mp hm
    obtain ⟨rfl, hsame⟩ := Prod.mk.inj he
    obtain rfl := Option.some.inj hsame
    exact hq

/-- The first member at the root is filed under the first name that leads to it. -/
theorem Lists.find?_root (hr : r.Lists t) (q : Path) :
    (r.members.values.find? fun w => w.root = some q).map Workspace.name =
      (t.entries.find? (·.2 = q)).map Prod.fst := by
  have hfind := congrArg (fun es => (es.find? (·.2 = some q)).map Prod.fst) hr.members
  simp only [List.find?_map, Function.comp_def, Option.map_map, Prod.map_fst, Prod.map_snd, id,
    Option.some.injEq] at hfind
  rw [← hfind, Table.values, List.find?_map, Option.map_map]
  refine Option.map_congr fun e he => hr.named e.1 e.2 ?_
  exact Table.get?_eq_some_iff.mpr (List.mem_of_find?_eq_some he)

@[simp] theorem fallback_removeFolder (r : Roster) (root : Path) :
    (r.removeFolder root).1.fallback = r.fallback := by
  unfold removeFolder
  split
  · rfl
  · rfl

theorem Lists.removeFolder (hr : r.Lists t) {c : FolderCall} (hadds : c.adds? = none)
    (hremoves : c.removes? = some q) : (r.removeFolder q).1.Lists (FolderCall.list t c) := by
  have hfirst := hr.find?_root q
  unfold FolderCall.list FolderCall.takes? Roster.removeFolder
  simp only [hadds, hremoves, Option.bind_some, ← hfirst]
  cases r.members.values.find? fun w => w.root = some q with
  | none => exact hr
  | some w =>
    refine ⟨?_, fun n w' hw' => ?_, hr.rootless⟩
    · have hentries := congrArg (List.filter fun e => decide (e.1 ≠ w.name)) hr.members
      rwa [List.filter_map, List.filter_map] at hentries
    · rw [Table.get?_erase] at hw'
      split at hw'
      · cases hw'
      · exact hr.named n w' hw'

theorem contains_iff_of_root {w : Workspace} (hw : w.root = some q) :
    w.contains p = true ↔ q.root = p.root ∧ q.names <+: p.names := by
  simp [Workspace.contains, hw, Path.isWithin, @eq_comm _ q.root]

/-- Some name leads to `p` or above it. -/
theorem Lists.hasOwner_iff (hr : r.Lists t) (p : Path) :
    r.hasOwner p = true ↔ ∃ n q, t.get? n = some q ∧ q.root = p.root ∧ q.names <+: p.names := by
  simp only [hasOwner, List.any_eq_true, Table.mem_values_iff, hr.get?_eq_some_iff]
  constructor
  · rintro ⟨w, ⟨n, hn⟩, hp⟩
    obtain ⟨q, hq⟩ := hr.rooted hn
    exact ⟨n, q, ⟨w, hn, hq⟩, (contains_iff_of_root hq).mp hp⟩
  · rintro ⟨n, q, ⟨w, hw, hq⟩, hp⟩
    exact ⟨w, ⟨n, hw⟩, (contains_iff_of_root hq).mpr hp⟩

/-- A root is among the owners of `p` if a name leads to it and it is `p` or above it. -/
theorem Lists.owned_at_iff (hr : r.Lists t) (p q : Path) :
    (∃ w ∈ r.owners p, w.root = some q) ↔
      (∃ n, t.get? n = some q) ∧ q.root = p.root ∧ q.names <+: p.names := by
  constructor
  · rintro ⟨w, hw, hq⟩
    unfold owners at hw
    split at hw
    · obtain ⟨hm, hp⟩ := List.mem_filter.mp hw
      obtain ⟨n, hn⟩ := Table.mem_values_iff.mp hm
      exact ⟨⟨n, hr.get?_eq_some_iff.mpr ⟨w, hn, hq⟩⟩, (contains_iff_of_root hq).mp hp⟩
    · simp [hr.rootless w (Option.mem_toList.mp hw)] at hq
  · rintro ⟨⟨n, hn⟩, hp⟩
    obtain ⟨w, hw, hq⟩ := hr.get?_eq_some_iff.mp hn
    refine ⟨w, ?_, hq⟩
    rw [owners, if_pos ((hr.hasOwner_iff p).mpr ⟨n, q, hn, hp⟩)]
    exact List.mem_filter.mpr ⟨Table.mem_values_iff.mpr ⟨n, hw⟩, (contains_iff_of_root hq).mpr hp⟩

/-- The fallback gets what nobody owns, and nothing else. -/
theorem Lists.owners_eq_fallback_iff (hr : r.Lists t) (p : Path) :
    r.owners p = r.fallback.toList ↔ r.hasOwner p = false := by
  constructor
  · intro howners
    by_contra ho
    have howner : r.hasOwner p = true := by simpa using ho
    obtain ⟨n, q, hn, hp⟩ := (hr.hasOwner_iff p).mp howner
    obtain ⟨w, hw, hq⟩ := (hr.owned_at_iff p q).mpr ⟨⟨n, hn⟩, hp⟩
    rw [howners] at hw
    simp [hr.rootless w (Option.mem_toList.mp hw)] at hq
  · intro ho
    simp [owners, ho]

end Roster

namespace Hub

def folderCall (h : Hub) : FolderCall → Hub
  | .add f => (h.addFolder f).1
  | .remove uri => (h.removeFolder uri).1

def folderCalls (h : Hub) (calls : List FolderCall) : Hub := calls.foldl folderCall h

theorem folderCalls_snoc (h : Hub) (calls : List FolderCall) (c : FolderCall) :
    h.folderCalls (calls ++ [c]) = (h.folderCalls calls).folderCall c := by
  simp [folderCalls]

/-- What was asked for was done up to the first call whose URI cannot be read. -/
def Did (h : Hub) (asked : List FolderCall) (outcome : Hub × Except Uri.Error Unit) : Prop :=
  ∃ calls, calls <+: asked ∧ outcome.1 = h.folderCalls calls ∧ (outcome.2 = .ok () → calls = asked)

namespace Did

variable {h g : Hub} {c : FolderCall} {cs cs' : List FolderCall}
  {outcome : Hub × Except Uri.Error Unit}

theorem nil (h : Hub) : h.Did [] (h, .ok ()) := ⟨[], List.prefix_refl _, rfl, fun _ => rfl⟩

theorem cons (hg : h.folderCall c = g) (hd : g.Did cs outcome) : h.Did (c :: cs) outcome := by
  obtain ⟨calls, hcalls, he, hall⟩ := hd
  refine ⟨c :: calls, by simpa using hcalls, ?_, fun hok => by rw [hall hok]⟩
  rw [he, ← hg]
  rfl

theorem failed (hg : h.folderCall c = g) (cs : List FolderCall) (e : Uri.Error) :
    h.Did (c :: cs) (g, .error e) := by
  refine ⟨[c], by simp, ?_, fun hok => by cases hok⟩
  rw [← hg]
  rfl

theorem append (hd : h.Did cs (g, .ok ())) (hd' : g.Did cs' outcome) :
    h.Did (cs ++ cs') outcome := by
  obtain ⟨calls, _, he, hall⟩ := hd
  obtain rfl := hall rfl
  obtain ⟨calls', hcalls', he', hall'⟩ := hd'
  refine ⟨calls ++ calls', by simpa using hcalls', ?_, fun hok => by rw [hall' hok]⟩
  rw [he', show g = h.folderCalls calls from he]
  simp [folderCalls]

theorem append_failed {e : Uri.Error} (hd : h.Did cs (g, .error e)) (cs' : List FolderCall) :
    h.Did (cs ++ cs') (g, .error e) := by
  obtain ⟨calls, hcalls, he, _⟩ := hd
  exact ⟨calls, hcalls.trans (List.prefix_append _ _), he, fun hok => by cases hok⟩

end Did

theorem addFolders_did (h : Hub) (fs : List Folder) : h.Did (fs.map .add) (h.addFolders fs) := by
  induction fs generalizing h with
  | nil => exact .nil h
  | cons f fs ih =>
    have hcall : h.folderCall (.add f) = (h.addFolder f).1 := rfl
    rw [addFolders]
    generalize h.addFolder f = outcome at hcall ⊢
    rcases outcome with ⟨g, _ | _⟩
    · exact .failed hcall _ _
    · exact .cons hcall (ih g)

theorem removeFolders_did (h : Hub) (uris : List String) :
    h.Did (uris.map .remove) (h.removeFolders uris) := by
  induction uris generalizing h with
  | nil => exact .nil h
  | cons uri uris ih =>
    have hcall : h.folderCall (.remove uri) = (h.removeFolder uri).1 := rfl
    rw [removeFolders]
    generalize h.removeFolder uri = outcome at hcall ⊢
    rcases outcome with ⟨g, _ | _⟩
    · exact .failed hcall _ _
    · exact .cons hcall (ih g)

/-- What the editor tells of folders are calls of this kind, the removals first. -/
theorem changeFolders_did (h : Hub) (removed : List String) (added : List Folder) :
    h.Did (removed.map .remove ++ added.map .add) (h.changeFolders removed added) := by
  have hremoved := h.removeFolders_did removed
  rw [changeFolders]
  generalize h.removeFolders removed = outcome at hremoved ⊢
  rcases outcome with ⟨g, _ | _⟩
  · exact hremoved.append_failed _
  · exact hremoved.append (g.addFolders_did added)

/-- A call adds a folder, removes one, or cannot read its URI and leaves the workspaces as they
are. -/
theorem roster_folderCall (h : Hub) (c : FolderCall) :
    (∃ root name, c.adds? = some ((Roster.folder root name).name, root) ∧
        (h.folderCall c).roster = h.roster.add (Roster.folder root name)) ∨
      (∃ root, c.adds? = none ∧ c.removes? = some root ∧
        (h.folderCall c).roster = (h.roster.removeFolder root).1) ∨
      (c.adds? = none ∧ c.removes? = none ∧ (h.folderCall c).roster = h.roster) := by
  cases c with
  | add f =>
    cases hf : Uri.path f.uri with
    | ok root =>
      refine .inl ⟨root, f.name, by simp [FolderCall.adds?, hf, Except.toOption], ?_⟩
      simp [folderCall, addFolder, hf, note]
    | error e =>
      refine .inr (.inr ⟨by simp [FolderCall.adds?, hf, Except.toOption], rfl, ?_⟩)
      simp [folderCall, addFolder, hf]
  | remove uri =>
    cases hu : Uri.path uri with
    | ok root =>
      refine .inr (.inl ⟨root, rfl, by simp [FolderCall.removes?, hu, Except.toOption], ?_⟩)
      simp [folderCall, removeFolder, hu]
    | error e =>
      refine .inr (.inr ⟨rfl, by simp [FolderCall.removes?, hu, Except.toOption], ?_⟩)
      simp [folderCall, removeFolder, hu]

variable {h : Hub} {calls : List FolderCall} {r : Path}

theorem folderCalls_lists (hempty : h.roster.members = .empty)
    (hrootless : ∀ w ∈ h.roster.fallback, w.root = none)
    (calls : List FolderCall) : (h.folderCalls calls).roster.Lists (FolderCall.listed calls) ∧
      (h.folderCalls calls).roster.fallback = h.roster.fallback := by
  induction calls using List.reverseRecOn with
  | nil => exact ⟨⟨by rw [folderCalls, List.foldl_nil, hempty]; rfl,
    by simp [folderCalls, hempty], hrootless⟩, rfl⟩
  | append_singleton calls c ih =>
    obtain ⟨hlists, hfallback⟩ := ih
    rw [folderCalls_snoc, FolderCall.listed_snoc]
    rcases (h.folderCalls calls).roster_folderCall c with ⟨root, name, hadds, he⟩ |
      ⟨root, hadds, hremoves, he⟩ |
      ⟨hadds, hremoves, he⟩
    · rw [he, FolderCall.list, hadds]
      exact ⟨hlists.add root name, hfallback⟩
    · rw [he, Roster.fallback_removeFolder]
      exact ⟨hlists.removeFolder hadds hremoves, hfallback⟩
    · rw [he, FolderCall.list, FolderCall.takes?, hadds, hremoves]
      exact ⟨hlists, hfallback⟩

/-- After any calls that add and remove folders, a workspace at `r` owns a path just when `r` is the
path or above it, and was added and not removed since and not all its names have gone to other
roots, or was left behind under some name; the fallback is the owner just when there is no such
root. Only a root that was removed while it had two names can be left behind. -/
theorem owners_follow_folders (settings : Settings) (route : Route) (calls : List FolderCall)
    (p : Path) :
    (∀ r, (∃ w ∈ ((start settings route).folderCalls calls).roster.owners p, w.root = some r) ↔
      ((FolderCall.Added calls r ∧ ¬ FolderCall.Displaced calls r) ∨
        ∃ n, FolderCall.LeftBehind calls n r) ∧
      r.root = p.root ∧ r.names <+: p.names) ∧
    (((start settings route).folderCalls calls).roster.owners p =
        (Roster.start settings.defaultWorkspace).fallback.toList ↔
      ∀ r, r.root = p.root → r.names <+: p.names →
        (FolderCall.Added calls r → FolderCall.Displaced calls r) ∧
          ∀ n, ¬ FolderCall.LeftBehind calls n r) ∧
    ∀ r n, FolderCall.LeftBehind calls n r → FolderCall.HalfRemoved calls r := by
  have hempty : (start settings route).roster.members = .empty := rfl
  have hrootless := (Roster.start_lists settings.defaultWorkspace).rootless
  obtain ⟨hlists, hfallback⟩ := folderCalls_lists hempty hrootless calls
  have hnamed (r : Path) : (∃ n, (FolderCall.listed calls).get? n = some r) ↔
      (FolderCall.Added calls r ∧ ¬ FolderCall.Displaced calls r) ∨
        ∃ n, FolderCall.LeftBehind calls n r := by
    simp only [FolderCall.listed_iff, FolderCall.added_and_not_displaced_iff, exists_or]
  refine ⟨fun r => ?_, ?_, fun r n hleft => hleft.halfRemoved⟩
  · rw [hlists.owned_at_iff, hnamed]
  · rw [show (Roster.start settings.defaultWorkspace).fallback =
      (start settings route).roster.fallback from rfl,
      ← hfallback, hlists.owners_eq_fallback_iff, Bool.eq_false_iff, ne_eq, hlists.hasOwner_iff]
    constructor
    · intro hnone r hroot hnames
      have hunnamed : ¬ ∃ n, (FolderCall.listed calls).get? n = some r :=
        fun ⟨n, hn⟩ => hnone ⟨n, r, hn, hroot, hnames⟩
      rw [hnamed, not_or, not_and_not_right, not_exists] at hunnamed
      exact hunnamed
    · rintro hall ⟨n, r, hn, hroot, hnames⟩
      have hunnamed := hall r hroot hnames
      rw [← not_exists, ← not_and_not_right, ← not_or, ← hnamed] at hunnamed
      exact hunnamed ⟨n, hn⟩

/-- A folder is removed and comes back, another one below it stays, and a third one gets the name of
the first. -/
def shuffled : List FolderCall :=
  [.add ⟨"file:///a", some "x"⟩, .add ⟨"file:///a/b", none⟩, .remove "file:///a",
    .add ⟨"file:///a", some "x"⟩,
    .add ⟨"file:///c", some "x"⟩]

def halved : List FolderCall :=
  [.add ⟨"file:///a", some "x"⟩, .add ⟨"file:///a", some "y"⟩] ++ [.remove "file:///a"]

/-- The folder below owns what is in it. The first one was added and not removed since, and owns
nothing: the fallback gets its documents. A folder that was removed under two names is left behind
and still owns what is in it, until its other name goes to another root. -/
theorem owners_follow_folders_shuffled :
    let owners (calls : List FolderCall) := ((start {}).folderCalls calls).roster.owners
    (∃ w ∈ owners shuffled ⟨.single, ["a", "b", "f.py"]⟩, w.root = some ⟨.single, ["a", "b"]⟩) ∧
      FolderCall.Added shuffled ⟨.single, ["a"]⟩ ∧
      (¬ ∃ w ∈ owners shuffled ⟨.single, ["a", "b", "f.py"]⟩, w.root = some ⟨.single, ["a"]⟩) ∧
      owners shuffled ⟨.single, ["a", "f.py"]⟩ = [⟨Roster.fallbackName, none, .empty⟩] ∧
      ¬ FolderCall.Added halved ⟨.single, ["a"]⟩ ∧
      (∃ w ∈ owners halved ⟨.single, ["a", "f.py"]⟩, w.root = some ⟨.single, ["a"]⟩) ∧
      owners (halved ++ [.add ⟨"file:///c", some "y"⟩]) ⟨.single, ["a", "f.py"]⟩ =
        [⟨Roster.fallbackName, none, .empty⟩] := by
  have hbelow := (owners_follow_folders {} .registry shuffled ⟨.single, ["a", "b", "f.py"]⟩).1
  have hhalved := (owners_follow_folders {} .registry halved ⟨.single, ["a", "f.py"]⟩).1
  have hfallback (calls : List FolderCall)
      (hclear : ∀ names ∈ ["a", "f.py"].inits, FolderCall.Displaced calls ⟨.single, names⟩ ∧
        ¬ ∃ n, FolderCall.LeftBehind calls n ⟨.single, names⟩) :
      ((start {}).folderCalls calls).roster.owners ⟨.single, ["a", "f.py"]⟩ =
        [⟨Roster.fallbackName, none, .empty⟩] := by
    refine (owners_follow_folders {} .registry calls ⟨.single, ["a", "f.py"]⟩).2.1.mpr ?_
    rintro ⟨_, names⟩ rfl hnames
    obtain ⟨hdisplaced, hleft⟩ := hclear names ((List.mem_inits _ _).mpr hnames)
    exact ⟨fun _ => hdisplaced, not_exists.mp hleft⟩
  have hstands : FolderCall.Stands shuffled "/a/b" ⟨.single, ["a", "b"]⟩ := by decide +kernel
  have hadded : FolderCall.Added shuffled ⟨.single, ["a"]⟩ :=
    ⟨shuffled.take 3, .add ⟨"file:///a", some "x"⟩, shuffled.drop 4, "x", rfl,
      by decide +kernel, by decide +kernel⟩
  have hgone : FolderCall.Displaced shuffled ⟨.single, ["a"]⟩ ∧
      ¬ ∃ n, FolderCall.LeftBehind shuffled n ⟨.single, ["a"]⟩ := by
    decide +kernel
  have hremoves : (FolderCall.remove "file:///a").removes? = some ⟨.single, ["a"]⟩ := by
    decide +kernel
  have hleft : ∃ n, FolderCall.LeftBehind halved n ⟨.single, ["a"]⟩ :=
    FolderCall.exists_leftBehind hremoves (show "x" ≠ "y" by decide) (by decide +kernel)
      (by decide +kernel)
  refine ⟨(hbelow _).mpr ⟨.inl ⟨hstands.added, by decide +kernel⟩, by decide⟩, hadded,
    fun howned => ?_,
    hfallback _ (by decide +kernel), FolderCall.not_added_of_removes hremoves,
    (hhalved _).mpr ⟨.inr hleft, by decide⟩, hfallback _ (by decide +kernel)⟩
  rcases ((hbelow _).mp howned).1 with ⟨_, hstill⟩ | hkept
  · exact hstill hgone.1
  · exact hgone.2 hkept

end Hub
end NotebookHub
