import NotebookHub.Proofs.Outcomes

namespace NotebookHub

variable {α β : Type}

/-- A notebook apart from the data of its cells. -/
structure Outline where
  uri : String
  type : String
  version : Int
  metadata : Option Metadata
  documents : List String

def Notebook.outline (n : Notebook) : Outline := ⟨n.uri, n.type, n.version, n.metadata, n.documents⟩

def Metadata.read (v : Option Json) : Except Metadata.Error (Option Metadata) :=
  match v with
  | none => .ok none
  | some v => (Metadata.ofJson v).map some

def Outline.stamp (o : Outline) (version : Int) (metadata : Option Json) : Outline :=
  match Metadata.read metadata with
  | .error _ => { o with version }
  | .ok m => { o with version, metadata := m.or o.metadata }

/-- What a notification that fails makes of its notebook. Metadata that cannot be read stops it
before it gets to the cells. -/
def Notification.leftover (n : Notification) (stored : Option Outline) : Option Outline :=
  match n with
  | .openNotebook item _ =>
    match Metadata.read item.metadata with
    | .error _ => stored
    | .ok metadata =>
      some ⟨item.uri, item.type, item.version, metadata, item.cells.map Cell.document⟩
  | .changeNotebook _ version change =>
    stored.map fun o =>
      match Metadata.read change.metadata, change.structural with
      | .ok _, some s =>
        { o.stamp version change.metadata with documents := s.respliced o.documents }
      | _, _ => o.stamp version change.metadata
  | .closeNotebook .. => none
  | _ => stored

/-- A change that fails has set the version. -/
theorem Notification.version_leftover (uri : String) (version : Int) (change : NotebookChange)
    (o : Option Outline) :
    ((Notification.changeNotebook uri version change).leftover o).map Outline.version =
      o.map fun _ => version := by
  have hstamp (o : Outline) : (o.stamp version change.metadata).version = version := by
    unfold Outline.stamp
    split <;> rfl
  cases o with
  | none => rfl
  | some o =>
    simp only [leftover, Option.map_some]
    split <;> exact congrArg some (hstamp o)

namespace Store

/-- The index was changed only where it named the notebook. -/
def Freed (s : Store) (N : Key) (owners : Table Key Key) : Prop :=
  ∀ k, owners.get? k ≠ s.owners.get? k → s.owners.get? k = some N

/-- The index was changed only where it named the notebook or does so now. -/
def Claimed (s : Store) (N : Key) (owners : Table Key Key) : Prop :=
  ∀ k, owners.get? k ≠ s.owners.get? k → s.owners.get? k = some N ∨ owners.get? k = some N

theorem Freed.claimed {s : Store} {N : Key} {owners : Table Key Key} (h : s.Freed N owners) :
    s.Claimed N owners := fun k hk => .inl (h k hk)

theorem freed_self (s : Store) (N : Key) : s.Freed N s.owners := fun _ hk => absurd rfl hk

theorem Freed.unindex {s t : Store} {N : Key} (h : s.Freed N t.owners) :
    s.Freed N (t.unindex N).owners := by
  intro k hk
  by_cases hsame : t.owners.get? k = s.owners.get? k
  · simp only [Store.unindex, Table.get?_filter, hsame] at hk
    cases hs : s.owners.get? k with
    | none => simp [hs] at hk
    | some M =>
      rw [hs] at hk
      by_contra hM
      have hne : M ≠ N := fun he => hM (congrArg some he)
      exact hk (by simp [Option.filter, hne])
  · exact h k hsame

/-- Claims are made for the notebook, and nothing else changes. -/
theorem get?_claim (N : Key) (ds : List String) (owners : Table Key Key) (k : Key) :
    (claim N ds owners).1.get? k = owners.get? k ∨ (claim N ds owners).1.get? k = some N := by
  induction ds generalizing owners with
  | nil => exact .inl rfl
  | cons d ds ih =>
    rw [claim]
    cases Uri.key d with
    | error e => exact .inl rfl
    | ok k' =>
      rcases ih (owners.insert k' N) with h | h
      · by_cases hk : k' = k
        · exact .inr (by simpa [hk] using h)
        · exact .inl (by simpa [hk] using h)
      · exact .inr h

theorem Freed.reindex {s t : Store} {N : Key} (h : s.Freed N t.owners) :
    s.Claimed N (t.reindex N).1.owners := by
  unfold Store.reindex
  split
  · exact h.claimed
  · intro k hk
    dsimp only at hk ⊢
    rcases get?_claim N _ (t.unindex N).owners k with he | he
    · rw [he] at hk
      exact .inl (h.unindex k hk)
    · exact .inr he

end Store

namespace Act

def Leaves (P : Hub → Prop) (a : Act α) (Q : Hub → Prop) : Prop := ∀ h, P h → Q (a.on h).1

namespace Leaves

variable {P Q R : Hub → Prop} {a : Act α} {f : α → Act β}

theorem bind (ha : Leaves P a Q) (hf : ∀ x, Preserves Q (f x)) : Leaves P (a >>= f) Q := by
  intro h hp
  have hq := ha h hp
  rw [on_bind]
  rcases he : a.on h with ⟨g, e | x⟩ <;> rw [he] at hq
  · exact hq
  · exact hf x g hq

/-- The first part does not fail. -/
theorem past (hc : Faults P a none) (ha : Leaves P a R) (hf : ∀ x, Leaves R (f x) Q) :
    Leaves P (a >>= f) Q := by
  intro h hp
  have hc := hc h hp
  have hr := ha h hp
  rw [on_bind]
  rcases he : a.on h with ⟨g, e | x⟩ <;> rw [he] at hc hr
  · cases hc
  · exact hf x g hr

/-- The first part fails. -/
theorem stop {e : Fault} (hc : Faults P a (some e)) (ha : Leaves P a Q) : Leaves P (a >>= f) Q := by
  intro h hp
  have hc := hc h hp
  have hq := ha h hp
  rw [on_bind]
  rcases he : a.on h with ⟨g, e | x⟩ <;> rw [he] at hc hq
  · exact hq
  · cases hc

theorem imp (ha : Leaves P a Q) (hq : ∀ h, Q h → R h) : Leaves P a R := fun h hp => hq _ (ha h hp)

theorem keyOf_bind {uri : String} {k : Key} {f : Key → Act β} (hk : Uri.key uri = .ok k)
    (hf : Leaves P (f k) Q) : Leaves P (keyOf uri >>= f) Q := by
  intro h hp
  rw [on_bind, keyOf, hk]
  exact hf h hp

theorem get_bind {f : Hub → Act β} (hf : ∀ h, P h → Leaves (fun g => g = h) (f h) Q) :
    Leaves P (get >>= f) Q := by
  intro h hp
  rw [on_bind]
  exact hf h hp h rfl

theorem at_hand {h : Hub} (hf : Leaves P a Q) (hp : P h) : Leaves (fun g => g = h) a Q := by
  rintro _ rfl
  exact hf _ hp

end Leaves
end Act

theorem Metadata.fault?_of_read {v : Option Json} {m : Option Metadata}
    (hm : Metadata.read v = .ok m) :
    v.bind Metadata.fault? = none := by
  cases v with
  | none => rfl
  | some v =>
    unfold Metadata.read at hm
    cases hv : Metadata.ofJson v <;> simp [hv, Except.map] at hm
    simp [Metadata.fault?, hv, Except.mapError, failure?]

theorem Metadata.fault?_of_read_error {v : Option Json} {e : Metadata.Error}
    (he : Metadata.read v = .error e) :
    v.bind Metadata.fault? = some (.metadata e) := by
  cases v with
  | none => cases he
  | some v =>
    unfold Metadata.read at he
    cases hv : Metadata.ofJson v <;> simp [hv, Except.map] at he
    simp [Metadata.fault?, hv, Except.mapError, failure?, he]

namespace Hub

structure Lists (N : Key) (o : Option Outline) (C : Table Key Key → Prop) (h : Hub) : Prop where
  own : (h.store.get? N).map Notebook.outline = o
  owners : C h.store.owners

theorem Lists.claimed {N : Key} {o : Option Outline} {s : Store} {h : Hub}
    (hl : h.Lists N o (s.Freed N)) :
    h.Lists N o (s.Claimed N) := ⟨hl.own, hl.owners.claimed⟩

theorem Lists.withDocuments {N : Key} {o : Option Outline} {C : Table Key Key → Prop} (h : Hub)
    (documents : Registry) (hl : h.Lists N o C) : Lists N o C { h with documents } :=
  ⟨hl.own, hl.owners⟩

theorem Lists.note {N : Key} {o : Option Outline} {C : Table Key Key → Prop} (h : Hub) (n : Note)
    (hl : h.Lists N o C) : (h.note n).Lists N o C := ⟨hl.own, hl.owners⟩

/-- An open notebook is changed. -/
theorem Lists.modify {N : Key} {o o' : Outline} {C : Table Key Key → Prop} {h : Hub}
    (hl : h.Lists N (some o) C) {f : Notebook → Notebook}
    (hf : ∀ n, h.store.get? N = some n → n.outline = o → (f n).outline = o') :
    Lists N (some o') C { h with store := h.store.modify N f } where
  own := by
    obtain ⟨n, hn, ho⟩ := Option.map_eq_some_iff.mp hl.own
    simp [Store.get?_modify, hn, hf n hn ho]
  owners := hl.owners

section Operations

variable {N : Key} {o : Option Outline} {C : Table Key Key → Prop} {s : Store}

/-- An index that was made anew names the notebook where it did not before, but changes nothing
else. -/
theorem reindex_leaves :
    Act.Leaves (Lists N o (s.Freed N)) (reindex N) (Lists N o (s.Claimed N)) := by
  intro h hl
  rw [reindex_on]
  exact ⟨by simpa only [Store.get?_reindex] using hl.own, hl.owners.reindex⟩

/-- A notebook is put in its place when its metadata can be read; its cells leave the index in any
case. -/
theorem putInStore_leaves (item : NotebookItem) (items : List TextItem) (N : Key) :
    Act.Leaves (Lists N o (s.Freed N)) (putInStore item N)
      (Lists N ((Notification.openNotebook item items).leftover o) (s.Claimed N)) := by
  have hread : item.metadata.mapM metadataOf = (match Metadata.read item.metadata with
      | .ok m => pure m
      | .error e => throw (.metadata e) : Act (Option Metadata)) := by
    cases item.metadata with
    | none => rfl
    | some v =>
      simp only [Option.mapM_some, metadataOf, Metadata.read]
      cases Metadata.ofJson v <;> rfl
  unfold putInStore
  rw [hread]
  simp only [Notification.leftover]
  cases Metadata.read item.metadata with
  | error e => exact fun h hl => hl.claimed
  | ok metadata =>
    rw [pure_bind]
    refine .past (.modify _) (R := Lists N (some ⟨item.uri, item.type, item.version, metadata,
      item.cells.map Cell.document⟩) (s.Freed N)) (fun h hl => ?_) fun _ => reindex_leaves
    exact ⟨by simp [Store.get?, Notebook.outline, Notebook.documents], hl.owners⟩

theorem openInStore_leaves {item : NotebookItem} (items : List TextItem)
    (hN : Uri.key item.uri = .ok N) :
    Act.Leaves (Lists N o (s.Freed N)) (openInStore item)
      (Lists N ((Notification.openNotebook item items).leftover o) (s.Claimed N)) := by
  have hput := putInStore_leaves (o := o) (s := s) item items N
  rw [openInStore_eq]
  refine .keyOf_bind hN (.get_bind fun h hl => ?_)
  dsimp only
  split
  · refine .past (.jot _) (R := Lists N o (s.Freed N)) (by rintro _ rfl; exact hl.note _ _)
      fun _ => ?_
    exact .past (.modify _) (fun h hl => ⟨hl.own, hl.owners.unindex⟩) fun _ => hput
  · exact hput.at_hand hl

/-- A version is set even if the metadata that comes with it cannot be read. -/
theorem applyVersion_leaves (o : Outline) (version : Int) (metadata : Option Json) :
    Act.Leaves (Lists N (some o) C) (applyVersion N version metadata)
      (Lists N (some (o.stamp version metadata)) C) := by
  refine .past (.modify _) (R := Lists N (some { o with version }) C) (fun h hl => ?_) fun _ => ?_
  · exact hl.modify fun n _ ho => congrArg (fun o : Outline => { o with version }) ho
  cases metadata with
  | none => exact fun h hl => hl
  | some v =>
    simp only [metadataOf, Outline.stamp, Metadata.read]
    cases Metadata.ofJson v with
    | error e => exact fun h hl => hl
    | ok m =>
      rw [pure_bind]
      exact fun h hl => hl.modify
        fun n _ ho => congrArg (fun o : Outline => { o with metadata := some m }) ho

/-- The new cell list stands even if it cannot be indexed. -/
theorem applyStructure_leaves {o : Outline} {notebook : Notebook} (change : StructureChange)
    (token : Option Token) (ho : notebook.documents = o.documents) :
    Act.Leaves (Lists N (some o) (s.Freed N)) (applyStructure N notebook change token)
      (Lists N (some { o with documents := change.respliced o.documents }) (s.Claimed N)) := by
  refine .past (.modify _)
    (R := Lists N (some { o with documents := change.respliced o.documents }) (s.Freed N))
    (fun h hl => ?_) fun _ => ?_
  · refine hl.modify fun n _ hn => ?_
    rw [← ho, ← hn]
    exact congrArg (Outline.mk _ _ _ _) (documents_splice notebook.cells change)
  refine reindex_leaves.bind fun _ =>
    Act.Preserves.bind (.modify fun _ hl => hl.note _ _) fun _ => ?_
  refine (registerOpens_keeps Lists.withDocuments Lists.note _ _).bind fun _ => ?_
  refine (registerCloses_keeps Lists.withDocuments Lists.note _).bind fun _ => ?_
  cases token with
  | none => exact .pure _
  | some t => exact (stage_keeps Lists.withDocuments Lists.note _ _).bind fun _ => .pure _

theorem changeCells_lists {o : Outline} (change : NotebookChange) :
    Act.Preserves (Lists N (some o) C) (changeCells N change) := by
  refine changeCells_preserves (fun updates => applyData_preserves (fun n h => Lists.note h n)
    fun notebook h hn hl => hl.modify fun n hn' ho => ?_)
      fun c _ => registerChange_keeps Lists.withDocuments
      Lists.note c .cell
  obtain rfl := Option.some.inj (hn.symm.trans hn')
  rw [← ho]
  exact congrArg (Outline.mk _ _ _ _) (documents_applyCellData notebook.cells updates)

end Operations

section Begin

variable {N : Key} {token : Option Token} {h : Hub}

def outlineAt (h : Hub) (N : Key) : Option Outline := (h.store.get? N).map Notebook.outline

theorem lists_self (h : Hub) (N : Key) : h.Lists N (h.outlineAt N) (h.store.Freed N) :=
  ⟨rfl, h.store.freed_self N⟩

theorem beginOpen_leaves {item : NotebookItem} (items : List TextItem)
    (hN : Uri.key item.uri = .ok N) :
    ((beginOpen item items token).on h).1.Lists N
      ((Notification.openNotebook item items).leftover (h.outlineAt N)) (h.store.Claimed N) := by
  have hall : Act.Leaves (Lists N (h.outlineAt N) (h.store.Freed N)) (beginOpen item items token)
      (Lists N ((Notification.openNotebook item items).leftover (h.outlineAt N))
        (h.store.Claimed N)) := by
    refine .past (.jot _) (fun _ hl => hl.note _ _)
      fun _ => (openInStore_leaves items hN).bind fun _ => ?_
    refine (registerOpensInOrder_keeps Lists.withDocuments Lists.note _ _).bind fun _ => ?_
    exact (stageOnOpen_preserves token (stage_keeps Lists.withDocuments Lists.note _)).bind
      fun _ => .pure _
  exact hall h (h.lists_self N)

theorem beginChange_leaves {uri : String} {version : Int} {change : NotebookChange}
    (hN : Uri.key uri = .ok N) (hopen : (h.store.get? N).isSome = true) :
    ((beginChange uri version change token).on h).1.Lists N
      ((Notification.changeNotebook uri version change).leftover (h.outlineAt N))
      (h.store.Claimed N) := by
  obtain ⟨notebook, hn⟩ := Option.isSome_iff_exists.mp hopen
  have ho : h.outlineAt N = some notebook.outline := by simp [outlineAt, hn]
  have hall : Act.Leaves (fun g => g = h) (beginChange uri version change token)
      (Lists N ((Notification.changeNotebook uri version change).leftover (h.outlineAt N))
        (h.store.Claimed N)) := by
    refine .past (.jot _) (R := fun g => g = h.note (.changeNotebook uri version))
      (by rintro _ rfl; rfl)
      fun _ => .keyOf_bind hN (.get_bind ?_)
    rintro _ rfl
    simp only [show (h.note (.changeNotebook uri version)).store.get? N = some notebook from hn]
    refine Act.Leaves.at_hand (P := Lists N (some notebook.outline) (h.store.Freed N)) ?_
      ⟨ho, (h.lists_self N).owners⟩
    simp only [Notification.leftover, ho, Option.map_some]
    have hversion :=
      applyVersion_leaves (N := N) (C := h.store.Freed N) notebook.outline version change.metadata
    have hfaults := applyVersion_faults
      (P := Lists N (some notebook.outline) (h.store.Freed N)) N version
      change.metadata
    cases hm : Metadata.read change.metadata with
    | error e =>
      rw [Metadata.fault?_of_read_error hm] at hfaults
      exact .stop hfaults (hversion.imp fun _ hl => hl.claimed)
    | ok m =>
      rw [Metadata.fault?_of_read hm] at hfaults
      refine .past hfaults hversion fun _ => ?_
      refine Act.Leaves.bind ?_ fun errands => (changeCells_lists change).bind fun edits => .pure _
      unfold changeStructure
      cases change.structural with
      | none => exact fun g hl => hl.claimed
      | some s =>
        have hsame : notebook.documents =
            (notebook.outline.stamp version change.metadata).documents := by
          simp [Outline.stamp, hm, Notebook.outline]
        have hstructure := applyStructure_leaves (N := N) (s := h.store) s token hsame
        rw [← hsame] at hstructure
        exact hstructure.bind fun u => .pure _
  exact hall h rfl

theorem beginClose_leaves {uri : String} (cells : List String) (hN : Uri.key uri = .ok N)
    (hopen : (h.store.get? N).isSome = true) :
    ((beginClose uri cells).on h).1.Lists N none (h.store.Claimed N) := by
  obtain ⟨notebook, hn⟩ := Option.isSome_iff_exists.mp hopen
  have hall :
      Act.Leaves (fun g => g = h) (beginClose uri cells) (Lists N none (h.store.Claimed N)) := by
    refine .keyOf_bind hN (.get_bind fun g hg => ?_)
    rw [hg]
    simp only [hn]
    refine .past (.modify _) (R := Lists N none (h.store.Claimed N)) (fun g hg => ?_) fun _ => ?_
    · rw [hg]
      refine ⟨by simp [Store.get?_close], ?_⟩
      simp only [Act.on_modify, Store.close, hn]
      exact Store.Freed.claimed (.unindex (h.store.freed_self N))
    · refine Act.Preserves.bind (.modify fun _ hl => hl.note _ _) fun _ => ?_
      exact (registerCloses_keeps Lists.withDocuments Lists.note _).bind fun _ => .pure _
  exact hall h rfl

/-- What can fail, its own URI having a key, is about a notebook: to open it, or to change or close
it while it is open. -/
theorem open_of_fault {n : Notification} (hN : Uri.key n.uri = .ok N) (hfault : h.fault? n ≠ none) :
    (∃ item items, n = .openNotebook item items) ∨
      ((∃ uri version change, n = .changeNotebook uri version change) ∨
        ∃ uri cells, n = .closeNotebook uri cells) ∧ (h.store.get? N).isSome = true := by
  cases n with
  | openNotebook item items => exact .inl ⟨item, items, rfl⟩
  | changeNotebook uri version change =>
    refine .inr ⟨.inl ⟨uri, version, change, rfl⟩, ?_⟩
    by_contra hnone
    have hclosed : h.notebookAt uri = none := by
      rw [notebookAt_eq (show Uri.key uri = .ok N from hN)]
      simpa using hnone
    exact hfault (by simp [fault?, Uri.fault?_of_key hN, readsMetadata, reads, hclosed])
  | closeNotebook uri cells =>
    refine .inr ⟨.inr ⟨uri, cells, rfl⟩, ?_⟩
    by_contra hnone
    have hclosed : h.notebookAt uri = none := by
      rw [notebookAt_eq (show Uri.key uri = .ok N from hN)]
      simpa using hnone
    exact hfault (by simp [fault?, Uri.fault?_of_key hN, readsMetadata, reads, hclosed])
  | saveNotebook uri => exact absurd rfl hfault
  | openDocument | changeDocument | closeDocument => exact absurd (fault?_text rfl hN) hfault

theorem begin_leaves {n : Notification} (token : Option Token) (hN : Uri.key n.uri = .ok N)
    (hfault : h.fault? n ≠ none) :
    ((begin n token).on h).1.Lists N (n.leftover (h.outlineAt N)) (h.store.Claimed N) := by
  rcases open_of_fault hN hfault with
    ⟨item, items, rfl⟩ | ⟨⟨uri, version, change, rfl⟩ | ⟨uri, cells, rfl⟩, hopen⟩
  · exact beginOpen_leaves items hN
  · exact beginChange_leaves hN hopen
  · exact beginClose_leaves cells hN hopen

end Begin

/-- A notification that fails is turned away for want of a key, or begins and fails. -/
theorem handle_eq_error {h g : Hub} {n : Notification} {f : Fault}
    (hrun : h.handle n = (g, some f)) :
    (∃ e, Uri.key n.uri = .error e ∧ g = h) ∨
      ∃ k h', Uri.key n.uri = .ok k ∧
        (begin n (h.ticket n k).token).on { h with passes := h.passesAt n k } = (h', .error f) ∧
        g = h'.conclude n (h.ticket n k).lock := by
  unfold handle at hrun
  split at hrun
  · cases hrun
  · cases hk : Uri.key n.uri with
    | error e =>
      simp only [takeTicket_on_error hk] at hrun
      cases hrun
      exact .inl ⟨e, rfl, rfl⟩
    | ok k =>
      simp only [takeTicket_on hk] at hrun
      split at hrun
      · rename_i h' e hbegin
        cases hrun
        exact .inr ⟨k, h', rfl, hbegin, rfl⟩
      · cases hrun

/-- What a notification of notebook `N` that fails makes of a hub: its own notebook is left half
done, its token is taken, its documents may have been opened, closed, edited or linked, and nobody
is told. -/
structure Remains (h : Hub) (n : Notification) (N : Key) (g : Hub) : Prop where
  about : n.About N
  own : g.outlineAt N = n.leftover (h.outlineAt N)
  others : ∀ k, k ≠ N → g.store.get? k = h.store.get? k
  index : h.store.Claimed N g.store.owners
  documents : ∀ k, ¬ n.Touches k →
    (g.documents.get? k).map Document.unlinked = (h.documents.get? k).map Document.unlinked
  passes : g.passes = h.passesAt n N
  roster : g.roster = h.roster
  untold : ∃ cs, g.calls = h.calls ++ cs ∧ ∀ c ∈ cs, ∀ w m, c ≠ .told w m

/-- The books of two hubs are the same: their notebooks, index, documents and tokens, and what is in
the workspaces. -/
structure SameBooks (h g : Hub) : Prop where
  notebooks : ∀ k, g.store.get? k = h.store.get? k
  owners : ∀ k, g.store.owners.get? k = h.store.owners.get? k
  documents : ∀ k, g.documents.get? k = h.documents.get? k
  tokens : ∀ k, g.passes.current.get? k = h.passes.current.get? k
  roster : g.roster = h.roster

/-- A failed handler has nothing to conclude: a change that fails finds its notebook open, and
leaves it so. -/
theorem conclude_failed {h g : Hub} {n : Notification} {N : Key} (hN : Uri.key n.uri = .ok N)
    (hfault : h.fault? n ≠ none) (hg : g.outlineAt N = n.leftover (h.outlineAt N)) :
    g.conclude n (.notebook N) = g := by
  rcases open_of_fault hN hfault with
    ⟨item, items, rfl⟩ | ⟨⟨uri, version, change, rfl⟩ | ⟨uri, cells, rfl⟩, hopen⟩
  · rfl
  · have hstays : (g.store.get? N).isSome = true := by
      obtain ⟨notebook, hn⟩ := Option.isSome_iff_exists.mp hopen
      have hsome := congrArg Option.isSome hg
      simpa [outlineAt, Notification.leftover, hn] using hsome
    simp [conclude, hstays]
  · rfl

theorem remains_of_failed {h g : Hub} {n : Notification} {N : Key} {f : Fault} (hf : h.store.Filed)
    (hrun : h.handle n = (g, some f)) (hN : Uri.key n.uri = .ok N) : h.Remains n N g := by
  have hfault : h.fault? n ≠ none := by
    rw [← handle_faults hf n, hrun]
    nofun
  have habout : n.About N := by
    rcases open_of_fault hN hfault with
      ⟨item, items, rfl⟩ | ⟨⟨uri, version, change, rfl⟩ | ⟨uri, cells, rfl⟩, _⟩ <;> exact ⟨rfl, hN⟩
  rcases handle_eq_error hrun with ⟨e, he, _⟩ | ⟨k, h', hk, hbegin, hconclude⟩
  · rw [hN] at he
    cases he
  obtain rfl : k = N := Except.ok.inj (hk.symm.trans hN)
  have hlists :=
    begin_leaves (h := { h with passes := h.passesAt n k }) (h.ticket n k).token hk hfault
  rw [hbegin] at hlists
  have hregisters := registers_of_begin hbegin (C := fun _ => True) fun _ _ => trivial
  have hlock : (h.ticket n k).lock = .notebook k := by simp [ticket, habout.1]
  have hg : g = h' := by
    rw [hconclude, hlock]
    exact conclude_failed (h := h) hk hfault hlists.own
  subst hg
  exact {
    about := habout
    own := hlists.own
    others := fun k' hk' => hregisters.store k' fun ha => hk' (Except.ok.inj (ha.2.symm.trans hk))
    index := hlists.owners
    documents := hregisters.documents
    passes := hregisters.passes
    roster := hregisters.roster
    untold := hregisters.calls }

end Hub

namespace Dispatcher

/-- A token that is taken was not there before. -/
theorem Sound.token_is_new {d : Dispatcher} (hs : d.Sound) {n : Notification}
    (hr : n.restarts = true) (N : Key) :
    (d.hub.passesAt n N).current.get? N ≠ d.hub.passes.current.get? N := by
  intro hsame
  have hnew : (d.hub.passesAt n N).current.get? N = some (d.hub.passes.issued + 1) := by
    simp [Hub.passesAt, hr, Passes.supersede]
  have hle := hs.current ⟨N, d.hub.passes.issued + 1⟩ (Passes.isCurrent_iff.mpr (hsame ▸ hnew))
  exact absurd hle (Nat.not_succ_le_self _)

/-- What fails and leaves all books as they were is a change without a structure, of an open
notebook that had its version before. -/
theorem plain_of_sameBooks {d : Dispatcher} (hs : d.Sound) {n : Notification} {g : Hub} {f : Fault}
    (hfail : d.hub.handle n = (g, some f)) {N : Key} (hN : Uri.key n.uri = .ok N)
    (hsame : d.hub.SameBooks g) :
    ∃ uri change notebook, n = .changeNotebook uri notebook.version change ∧
      change.structural = none ∧
      d.hub.notebookAt uri = some notebook := by
  have hleft := Hub.remains_of_failed hs.filed hfail hN
  have hplain : n.restarts = false := by
    rw [Bool.eq_false_iff]
    intro hr
    have htokens := hsame.tokens N
    rw [hleft.passes] at htokens
    exact hs.token_is_new hr N htokens
  have hown : g.outlineAt N = d.hub.outlineAt N := by simp only [Hub.outlineAt, hsame.notebooks]
  have hfault : d.hub.fault? n ≠ none := by
    rw [← Hub.handle_faults hs.filed n, hfail]
    nofun
  rcases Hub.open_of_fault hN hfault with
    ⟨item, items, rfl⟩ | ⟨⟨uri, version, change, rfl⟩ | ⟨uri, cells, rfl⟩, hopen⟩
  · cases hplain
  · obtain ⟨notebook, hn⟩ := Option.isSome_iff_exists.mp hopen
    have hstructural : change.structural = none := by simpa [Notification.restarts] using hplain
    have hversion : version = notebook.version := by
      have hversions := congrArg (Option.map Outline.version) (hleft.own.symm.trans hown)
      simpa [Notification.version_leftover, Hub.outlineAt, hn, Notebook.outline] using hversions
    subst hversion
    exact ⟨uri, change, notebook, rfl, hstructural, (Hub.notebookAt_eq hN).trans hn⟩
  · have hgone := hown.symm.trans hleft.own
    obtain ⟨notebook, hn⟩ := Option.isSome_iff_exists.mp hopen
    simp [Hub.outlineAt, hn, Notification.leftover] at hgone

/-- A notification that fails is not undone. One without a key changes nothing, but any other leaves
its notebook half done and its token taken; so all is as it was only if it has no key, or is a
change without a structure that names the version that the notebook had. -/
theorem failure_is_not_undone {settings : Settings} {route : Route} {roster : Roster}
    {events : List Event} {d : Dispatcher} (hd : d = (fresh settings route roster).run events)
    {n : Notification} {g : Hub} {f : Fault} (hfail : d.hub.handle n = (g, some f)) :
    (∀ e, Uri.key n.uri = .error e → g = d.hub) ∧
    (∀ N, Uri.key n.uri = .ok N → d.hub.Remains n N g) ∧
    (d.hub.SameBooks g → (∃ e, Uri.key n.uri = .error e) ∨
      ∃ uri change notebook, n = .changeNotebook uri notebook.version change ∧
        change.structural = none ∧
        d.hub.notebookAt uri = some notebook) := by
  have hs : d.Sound := by
    rw [hd]
    exact (sound_fresh settings route roster).run (orderly_fresh settings route roster) events
  refine ⟨fun e he => ?_, fun N hN => Hub.remains_of_failed hs.filed hfail hN, fun hsame => ?_⟩
  · rcases Hub.handle_eq_error hfail with ⟨_, _, hg⟩ | ⟨k, _, hk, _⟩
    · exact hg
    · rw [he] at hk
      cases hk
  · cases hN : Uri.key n.uri with
    | error e => exact .inl ⟨e, rfl⟩
    | ok N => exact .inr (plain_of_sameBooks hs hfail hN hsame)

def keylessCell : Notification :=
  .changeNotebook "nb:1" 2
    ⟨none, some ⟨0, 0, [⟨.code, "file:x", none, none⟩], [⟨"file:x", .unnamed, 1, ""⟩], []⟩,
    none, none⟩

def oneCell : List Event :=
  [.arrive (.openNotebook ⟨"nb:1", "t", 1, none, [⟨.code, "c:a", none, none⟩]⟩
    [⟨"c:a", .unnamed, 1, ""⟩]),
    .resume 0]

/-- The new cell is refused, and stays in the notebook. -/
theorem failure_is_not_undone_keylessCell :
    ∃ g, ((fresh {} .registry (.start true)).run oneCell).hub.handle keylessCell =
        (g, some (.uri .relativePath)) ∧
      ¬ ((fresh {} .registry (.start true)).run oneCell).hub.SameBooks g ∧
      (g.outlineAt ⟨"nb:1"⟩).map Outline.version = some 2 ∧
      (g.outlineAt ⟨"nb:1"⟩).map Outline.documents = some ["file:x", "c:a"] := by
  have hfault : (((fresh {} .registry (.start true)).run oneCell).hub.handle keylessCell).2 =
      some (.uri .relativePath) := by decide +kernel
  have hfail : ((fresh {} .registry (.start true)).run oneCell).hub.handle keylessCell =
      ((((fresh {} .registry (.start true)).run oneCell).hub.handle keylessCell).1,
        some (.uri .relativePath)) :=
    Prod.ext rfl hfault
  have hkey : Uri.key keylessCell.uri = .ok ⟨"nb:1"⟩ := by decide +kernel
  obtain ⟨_, hremains, hsame⟩ := failure_is_not_undone rfl hfail
  refine ⟨_, hfail, fun hbooks => ?_, ?_, ?_⟩
  · rcases hsame hbooks with ⟨e, he⟩ | ⟨uri, change, notebook, he, hstructural, _⟩
    · rw [hkey] at he
      cases he
    · obtain ⟨_, _, rfl⟩ := Notification.changeNotebook.inj he
      cases hstructural
  · rw [(hremains _ hkey).own]
    decide +kernel
  · rw [(hremains _ hkey).own]
    decide +kernel

end Dispatcher
end NotebookHub
