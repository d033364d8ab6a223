import NotebookHub.Proofs.Folders
import NotebookHub.Proofs.Moves

namespace NotebookHub

namespace Roster

variable {r : Roster}

theorem length_values_visit {σ : Type} (t : Table String Workspace)
    (f : σ → Workspace → σ × Workspace) (s : σ) :
    (t.visit f s).2.values.length = t.values.length := by
  have hkeys := congrArg List.length (Table.keys_passThrough f s t.entries)
  simpa [Table.visit, Table.values] using hkeys

theorem length_members_deliver (r : Roster) (m : Message) :
    (r.deliver m).2.members.values.length = r.members.values.length := by
  unfold deliver
  dsimp only
  split
  · exact length_values_visit _ _ _
  · split <;> rfl

theorem length_members_foldl (r : Roster) (ms : List Message) :
    (ms.foldl (fun r m => (r.deliver m).2) r).members.values.length = r.members.values.length := by
  induction ms generalizing r with
  | nil => rfl
  | cons m ms ih => exact (ih _).trans (r.length_members_deliver m)

/-- The members are seen first, the fallback after them. -/
theorem seen_eq {β : Type} (r : Roster) (view : Option Content → β) (k : Key) :
    r.seen view k =
      (r.members.values.map fun w => (w.contains, view ((w.get? k).map File.content))) ++
      r.fallback.toList.map
        fun w => ((fun p => !r.hasOwner p), view ((w.get? k).map File.content)) := by
  simp [seen, posts, Post.content, Function.comp_def]

theorem of_mem_add {w w' : Workspace} (hw : w ∈ (r.add w').members.values) :
    w = w' ∨ w ∈ r.members.values := by
  obtain ⟨m, hm⟩ := Table.mem_values_iff.mp hw
  rw [add, Table.get?_insert] at hm
  split at hm
  · exact .inl (Option.some.inj hm).symm
  · exact .inr (Table.mem_values_iff.mpr ⟨m, hm⟩)

theorem of_mem_removeFolder {root : Path} {w : Workspace}
    (hw : w ∈ (r.removeFolder root).1.members.values) :
    w ∈ r.members.values := by
  unfold removeFolder at hw
  split at hw
  · obtain ⟨m, hm⟩ := Table.mem_values_iff.mp hw
    rw [Table.get?_erase] at hm
    split at hm
    · cases hm
    · exact Table.mem_values_iff.mpr ⟨m, hm⟩
  · exact hw

end Roster

def Message.leaves (k : Key) (held : Bool) (m : Message) : Bool :=
  if m.document.key = k then
    match m with
    | .opened .. => true
    | .closed _ => false
    | .changed .. | .linked .. => held
  else held

theorem Message.isSome_amend {m m' : Message} (ha : m.Alike m') (k : Key) (c : Option Content) :
    (m'.amend k c).isSome = m.leaves k c.isSome := by
  have hedit (a : Address) (edits : List Edit) (version : Option Int) (c : Option Content) :
      ((changed a edits version).effect c).isSome = c.isSome := by
    simp [effect]
  rw [ha.view_amend hedit]
  unfold amend leaves
  split
  · cases m <;> simp [effect]
  · rfl

namespace Hub

variable {h g : Hub} {n : Notification} {token : Option Token} {es : List Errand}

/-- Links and edits leave held what is held. -/
theorem leaves_of_not_moved {k : Key} (hmoved : ¬ ∃ x ∈ noticesOf es, x.Moves k) {m : Message}
    (hm : m ∈ g.owed es) (held : Bool) : m.leaves k held = held := by
  obtain ⟨e, he, hm⟩ := List.mem_flatMap.mp hm
  unfold Message.leaves
  split
  · rename_i hk
    cases e with
    | publish p =>
      simp only [Errand.messages] at hm
      split at hm
      · obtain ⟨l, _, rfl⟩ := List.mem_map.mp hm
        rfl
      · simp at hm
    | notice x =>
      simp only [Errand.messages] at hm
      split at hm
      · obtain rfl := List.mem_singleton.mp hm
        rw [Notice.document_message] at hk
        have hx : x ∈ noticesOf es := List.mem_filterMap.mpr ⟨_, he, rfl⟩
        cases x with
        | changed => rfl
        | opened | closed => exact absurd ⟨_, hx, hk⟩ hmoved
      · simp at hm
  · rfl

/-- What a notification leaves the owners of a document with: they have it then if they would have
it open. -/
theorem held_of_begin (hs : h.Shelved) (hrun : (begin n token).on h = (g, .ok es)) {a : Address}
    (ha : a.Sound) :
    (es.foldl carryOut g).roster.seen Option.isSome a.key =
    (h.roster.seen Option.isSome a.key).map fun s =>
      (s.1, if s.1 a.path = true then h.leavesOpen n a.key s.2 else s.2) := by
  have hstep (m m' : Message) (hm : m.Alike m') (c : Option Content) :=
    Message.isSome_amend hm a.key c
  by_cases hmoved : ∃ x ∈ noticesOf es, x.Moves a.key
  · have hsettled (was : Bool) : h.leavesOpen n a.key was = (g.documents.get? a.key).isSome := by
      obtain ⟨hheeds, hnamed⟩ := (moved_of_begin hs hrun).mp hmoved
      rw [open_of_begin hs hrun, leavesOpen, leavesOpen, if_pos hheeds, if_pos hheeds]
      rcases hnamed with ho | hc
      · simp [ho]
      · simp [hc]
    have hcontent : (g.documents.content a.key).isSome = (g.documents.get? a.key).isSome := by
      simp [Registry.content]
    simp only [seen_of_moved hs hrun ha hstep hmoved, hsettled, hcontent]
  · have hsame (was : Bool) : h.leavesOpen n a.key was = was := by
      rw [moved_of_begin hs hrun, not_and_or] at hmoved
      rw [leavesOpen]
      rcases hmoved with hheeds | hnamed
      · rw [if_neg hheeds]
      · simp only [not_or, Bool.not_eq_true] at hnamed
        simp [hnamed.1, hnamed.2]
    rw [seen_of_quiet hs hrun ha hstep fun _ hm => leaves_of_not_moved hmoved hm]
    simp only [hsame, ite_self]
    exact (List.map_id _).symm

/-- A document has been tended: members hold it only if it is open and in their folder, and the
fallback holds it or not as is said. -/
structure Tended (a : Address) (kept : Bool) (h : Hub) : Prop where
  shelved : h.Shelved
  members : ∀ w ∈ h.roster.members.values, (w.get? a.key).isSome = true →
    w.contains a.path = true ∧ (h.documents.get? a.key).isSome = true
  fallback : ∀ w ∈ h.roster.fallback, (w.get? a.key).isSome = kept

section Step

variable {a : Address} {kept : Bool}

/-- A document that is left open is so all the more if it was open before. -/
theorem leavesOpen_mono {n : Notification} {k : Key} {was was' : Bool}
    (hle : was = true → was' = true)
    (hw : h.leavesOpen n k was = true) : h.leavesOpen n k was' = true := by
  unfold leavesOpen at hw ⊢
  split
  · rename_i hheeds
    simp only [hheeds, if_true, Bool.and_eq_true, Bool.or_eq_true] at hw ⊢
    exact ⟨hw.1, hw.2.imp id hle⟩
  · rename_i hheeds
    simp only [hheeds] at hw
    exact hle hw

theorem Tended.begin (ht : h.Tended a kept) (ha : a.Sound)
    (hrun : (begin n token).on h = (g, .ok es)) :
    (es.foldl carryOut g).Tended a
    (if h.roster.hasOwner a.path then kept else h.leavesOpen n a.key kept) := by
  have hbooks := foldl_carryOut_speaks g es
  have hopen := open_of_begin ht.shelved hrun a.key
  have hheld := held_of_begin ht.shelved hrun ha
  have hlength : (es.foldl carryOut g).roster.members.values.length =
      h.roster.members.values.length := by
    rw [foldl_carryOut_roster, Roster.length_members_foldl,
      (registers_of_begin (C := fun _ => True) hrun fun _ _ => trivial).roster]
  rw [Roster.seen_eq, Roster.seen_eq, List.map_append] at hheld
  obtain ⟨hmembers, hfallback⟩ := List.append_inj hheld (by simp [hlength])
  simp only [List.map_map, Function.comp_def, Option.isSome_map] at hmembers hfallback
  constructor
  · unfold Shelved
    rw [hbooks.documents]
    have hkept := begin_shelved n token h ht.shelved
    rwa [hrun] at hkept
  · intro w hw hhas
    rw [hbooks.documents, hopen]
    have hmem : (w.contains, (w.get? a.key).isSome) ∈
        (es.foldl carryOut g).roster.members.values.map
          fun w => (w.contains, (w.get? a.key).isSome) :=
      List.mem_map_of_mem hw
    rw [hmembers] at hmem
    obtain ⟨w₀, hw₀, he⟩ := List.mem_map.mp hmem
    obtain ⟨hcontains, hheld⟩ := Prod.mk.inj he
    rw [hhas] at hheld
    by_cases hin : w₀.contains a.path = true
    · rw [if_pos hin] at hheld
      exact ⟨hcontains ▸ hin, leavesOpen_mono (fun hheld₀ => (ht.members w₀ hw₀ hheld₀).2) hheld⟩
    · rw [if_neg hin] at hheld
      exact absurd (ht.members w₀ hw₀ hheld).1 hin
  · intro w hw
    have hmem := List.mem_map_of_mem
      (f := fun w => ((fun p => !(es.foldl carryOut g).roster.hasOwner p),
      (w.get? a.key).isSome)) (Option.mem_toList.mpr hw)
    rw [hfallback] at hmem
    obtain ⟨w₀, hw₀, he⟩ := List.mem_map.mp hmem
    rw [← (Prod.mk.inj he).2, ht.fallback w₀ (Option.mem_toList.mp hw₀)]
    cases h.roster.hasOwner a.path <;> rfl

/-- The books that count are the registry and the workspaces. -/
theorem Tended.congr (ht : h.Tended a kept) (hd : g.documents = h.documents)
    (hr : g.roster = h.roster) :
    g.Tended a kept where
  shelved := by
    unfold Shelved
    rw [hd]
    exact ht.shelved
  members := by
    rw [hd, hr]
    exact ht.members
  fallback := by
    rw [hr]
    exact ht.fallback

theorem Tended.handle (ht : h.Tended a kept) (ha : a.Sound) (hrun : h.handle n = (g, none)) :
    g.Tended a (if h.roster.hasOwner a.path then kept else h.leavesOpen n a.key kept) := by
  rcases handle_eq_ok hrun with ⟨uri, rfl, rfl⟩ | ⟨k, h', es, _, hbegin, rfl⟩
  · have hsame : h.leavesOpen (.saveNotebook uri) a.key kept = kept := rfl
    rw [hsame, ite_self]
    exact ht.congr rfl rfl
  · rw [conclude_eq]
    have hready : Hub.Tended a kept { h with passes := h.passesAt n k } := ht.congr rfl rfl
    exact (hready.begin ha hbegin).congr rfl rfl

/-- A folder that comes holds nothing yet, and one that goes takes its files along. -/
theorem Tended.folderCall (ht : h.Tended a kept) (c : FolderCall) :
    (h.folderCall c).Tended a kept := by
  have hdocuments : (h.folderCall c).documents = h.documents := by
    cases c with
    | add f =>
      unfold Hub.folderCall addFolder
      dsimp only
      split <;> rfl
    | remove uri =>
      unfold Hub.folderCall removeFolder
      dsimp only
      split <;> rfl
  -- so it is enough that a workspace that holds something was a member before
  have hfewer (hr : ∀ w ∈ (h.folderCall c).roster.members.values, (w.get? a.key).isSome = true →
      w ∈ h.roster.members.values) (hf : (h.folderCall c).roster.fallback = h.roster.fallback) :
      (h.folderCall c).Tended a kept := by
    constructor
    · unfold Shelved
      rw [hdocuments]
      exact ht.shelved
    · intro w hw hhas
      rw [hdocuments]
      exact ht.members w (hr w hw hhas) hhas
    · rw [hf]
      exact ht.fallback
  rcases h.roster_folderCall c with ⟨root, name, _, he⟩ | ⟨root, _, _, he⟩ | ⟨_, _, he⟩
  · apply hfewer
    · intro w hw hhas
      rw [he] at hw
      rcases Roster.of_mem_add hw with rfl | hw
      · simp [Roster.folder, Workspace.get?] at hhas
      · exact hw
    · rw [he]
      rfl
  · apply hfewer
    · intro w hw _
      rw [he] at hw
      exact Roster.of_mem_removeFolder hw
    · rw [he, Roster.fallback_removeFolder]
  · exact ht.congr hdocuments he

end Step

end Hub

inductive Telling
  | notification (n : Notification)
  | folder (c : FolderCall)

namespace Hub

variable {h g : Hub} {a : Address} {kept : Bool} {t : Telling} {ts : List Telling}

def take (h : Hub) : Telling → Hub × Option Fault
  | .notification n => h.handle n
  | .folder c => (h.folderCall c, none)

def takeAll (h : Hub) : List Telling → Except Fault Hub
  | [] => .ok h
  | t :: ts =>
    match h.take t with
    | (g, none) => g.takeAll ts
    | (_, some e) => .error e

/-- Whether the fallback has the document `k` at `p` by whether it had it before: it is told of the
document while no folder contains the path. -/
def keeps (h : Hub) (k : Key) (p : Path) (was : Bool) : Telling → Bool
  | .notification n => if h.roster.hasOwner p then was else h.leavesOpen n k was
  | .folder _ => was

def keepsAfter (h : Hub) (k : Key) (p : Path) (was : Bool) : List Telling → Bool
  | [] => was
  | t :: ts => (h.take t).1.keepsAfter k p (h.keeps k p was t) ts

theorem Tended.take (ht : h.Tended a kept) (ha : a.Sound) (hrun : h.take t = (g, none)) :
    g.Tended a (h.keeps a.key a.path kept t) := by
  cases t with
  | notification n => exact ht.handle ha hrun
  | folder c =>
    cases hrun
    exact ht.folderCall c

theorem Tended.takeAll (ht : h.Tended a kept) (ha : a.Sound) (hrun : h.takeAll ts = .ok g) :
    g.Tended a (h.keepsAfter a.key a.path kept ts) := by
  induction ts generalizing h kept with
  | nil =>
    cases hrun
    exact ht
  | cons t ts ih =>
    rw [Hub.takeAll] at hrun
    split at hrun
    · rename_i h' htake
      rw [keepsAfter, htake]
      exact ih (ht.take ha htake) hrun
    · cases hrun

theorem tended_start (settings : Settings) (route : Route) (a : Address) :
    (start settings route).Tended a false where
  shelved k d hd := by simp [start, Registry.get?] at hd
  members w hw := by simp [start, Roster.start, Table.values, Table.empty] at hw
  fallback w hw := by
    cases hd : settings.defaultWorkspace with
    | false => simp [start, Roster.start, hd] at hw
    | true =>
      obtain rfl : ⟨Roster.fallbackName, none, .empty⟩ = w := by
        simpa [start, Roster.start, hd] using hw
      simp [Workspace.get?]

/-- Whatever is told and taken in, a workspace holds a closed document just when it is the fallback,
the document was left open to it when no folder contained the path, and it was closed only while
some folder did. -/
theorem holds_closed_iff_stray {settings : Settings} {route : Route} {ts : List Telling} {h : Hub}
    (hrun : (start settings route).takeAll ts = .ok h) {w : Workspace} (hw : w ∈ h.roster.all)
    {uri : String}
    {key : Key} {path : Path} (hkey : Uri.key uri = .ok key) (hpath : Uri.path uri = .ok path) :
    (w.get? key).isSome = true ∧ h.documents.get? key = none ↔
      h.roster.fallback = some w ∧ h.documents.get? key = none ∧
        (start settings route).keepsAfter key path false ts = true := by
  obtain ⟨a, ha, rfl⟩ := Address.of_key hkey
  obtain rfl : a.path = path := by
    have hp := (Address.of_eq_ok ha).2.2
    rw [hpath] at hp
    exact (Except.ok.inj hp).symm
  have ht := (tended_start settings route a).takeAll (Address.sound_of ha) hrun
  constructor
  · intro hclosed
    obtain ⟨hhas, hnone⟩ := hclosed
    rcases List.mem_append.mp hw with hmember | hfallback
    · have hopen := (ht.members w hmember hhas).2
      rw [hnone] at hopen
      cases hopen
    · have hw := Option.mem_toList.mp hfallback
      exact ⟨hw, hnone, (ht.fallback w hw).symm.trans hhas⟩
  · intro hstray
    obtain ⟨hw, hnone, hkept⟩ := hstray
    exact ⟨(ht.fallback w hw).trans hkept, hnone⟩

/-- A document is opened, its folder comes, and the document is closed. -/
def leftAtFallback : List Telling :=
  [.notification (.openDocument ⟨"file:///a/f.py", .named "python", 1, "x"⟩),
    .folder (.add ⟨"file:///a", none⟩),
    .notification (.closeDocument "file:///a/f.py")]

def abandonedHub : Hub := ((start {}).takeAll leftAtFallback).toOption.getD {}

/-- The folder was told that the document is closed, and the fallback, which was not, holds it. -/
theorem holds_closed_iff_stray_leftAtFallback :
    ∃ w ∈ abandonedHub.roster.all, w.root = none ∧ (w.get? ⟨"file:///a/f.py"⟩).isSome = true ∧
      abandonedHub.documents.get? ⟨"file:///a/f.py"⟩ = none := by
  have hok : ((start {}).takeAll leftAtFallback).toOption.isSome = true := by decide +kernel
  have hrun : (start {}).takeAll leftAtFallback = .ok abandonedHub := eq_ok_getD hok {}
  have hfallback : (abandonedHub.roster.fallback.map Workspace.root) = some none := by
    decide +kernel
  obtain ⟨w, hw, hroot⟩ := Option.map_eq_some_iff.mp hfallback
  have hmem : w ∈ abandonedHub.roster.all := List.mem_append_right _ (Option.mem_toList.mpr hw)
  have hkey : Uri.key "file:///a/f.py" = .ok ⟨"file:///a/f.py"⟩ := by decide +kernel
  have hpath : Uri.path "file:///a/f.py" = .ok ⟨.single, ["a", "f.py"]⟩ := by decide +kernel
  have hnone : abandonedHub.documents.get? ⟨"file:///a/f.py"⟩ = none := by decide +kernel
  have hkept :
      (start {}).keepsAfter ⟨"file:///a/f.py"⟩ ⟨.single, ["a", "f.py"]⟩ false
      leftAtFallback = true := by
    decide +kernel
  obtain ⟨hheld, _⟩ := (holds_closed_iff_stray hrun hmem hkey hpath).mpr ⟨hw, hnone, hkept⟩
  exact ⟨w, hmem, hroot, hheld, hnone⟩

end Hub
end NotebookHub
