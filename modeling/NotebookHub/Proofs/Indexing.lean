import NotebookHub.Proofs.Positions
import NotebookHub.Proofs.FailureEffects

namespace NotebookHub

namespace Store

def HasCell (s : Store) (N k : Key) : Prop :=
  ∃ n, s.get? N = some n ∧ ∃ c ∈ n.cells, Uri.key c.document = .ok k

/-- Every entry of the index names a notebook that has the cell. -/
def Indexed (s : Store) : Prop := ∀ k N, s.owners.get? k = some N → s.HasCell N k

/-- The index gives a cell to the notebooks that have it. -/
def Finds (s : Store) (k : Key) : Prop := ∀ N, s.owners.get? k = some N ↔ s.HasCell N k

/-- At most one open notebook has a cell. -/
def Apart (s : Store) (k : Key) : Prop := ∀ N M, s.HasCell N k → s.HasCell M k → N = M

/-- It is enough to look at the notebooks in pairs. -/
theorem apart_iff {s : Store} : (∀ k, s.Apart k) ↔
    ∀ e ∈ s.notebooks.entries, ∀ f ∈ s.notebooks.entries, ∀ c ∈ e.2.cells, ∀ d ∈ f.2.cells,
      (Uri.key c.document).toOption.isSome →
      Uri.key c.document = Uri.key d.document → e.1 = f.1 := by
  constructor
  · intro h e he f hf c hc d hd hsome hkey
    cases hk : Uri.key c.document with
    | error _ => simp [hk, Except.toOption] at hsome
    | ok k =>
      exact h k e.1 f.1 ⟨e.2, Table.get?_eq_some_iff.mpr he, c, hc, hk⟩
        ⟨f.2, Table.get?_eq_some_iff.mpr hf, d, hd, hkey ▸ hk⟩
  · rintro h k N M ⟨n, hn, c, hc, hk⟩ ⟨m, hm, d, hd, hk'⟩
    exact h (N, n) (Table.get?_eq_some_iff.mp hn) (M, m) (Table.get?_eq_some_iff.mp hm) c hc d hd
      (by simp [hk, Except.toOption]) (hk.trans hk'.symm)

instance (s : Store) : Decidable (∀ k, s.Apart k) := decidable_of_iff' _ apart_iff

/-- The cell list of an open notebook was changed; the index is right about all others. -/
structure IndexedBut (s : Store) (N : Key) : Prop where
  here : (s.get? N).isSome
  elsewhere : ∀ k M, M ≠ N → s.owners.get? k = some M → s.HasCell M k

structure FindsBut (s : Store) (N k : Key) : Prop where
  here : (s.get? N).isSome
  elsewhere : ∀ M, M ≠ N → (s.owners.get? k = some M ↔ s.HasCell M k)

def claimed : List String → List Key
  | [] => []
  | d :: ds =>
    match Uri.key d with
    | .ok k => k :: claimed ds
    | .error _ => []

theorem key_of_mem_claimed {ds : List String} {k : Key} (hk : k ∈ claimed ds) :
    ∃ d ∈ ds, Uri.key d = .ok k := by
  induction ds with
  | nil => simp [claimed] at hk
  | cons d ds ih =>
    rw [claimed] at hk
    cases hd : Uri.key d with
    | error e => simp [hd] at hk
    | ok k' =>
      rw [hd] at hk
      rcases List.mem_cons.mp hk with rfl | hk
      · exact ⟨d, List.mem_cons_self, hd⟩
      · obtain ⟨d', hm, hd'⟩ := ih hk
        exact ⟨d', List.mem_cons_of_mem d hm, hd'⟩

/-- The documents up to the first without a key are claimed, and nothing else. -/
theorem get?_claim_eq (N : Key) (ds : List String) (owners : Table Key Key) (k : Key) :
    (claim N ds owners).1.get? k = if k ∈ claimed ds then some N else owners.get? k := by
  induction ds generalizing owners with
  | nil => simp [claim, claimed]
  | cons d ds ih =>
    rw [claim, claimed]
    cases Uri.key d with
    | error e => simp
    | ok k' =>
      dsimp only
      rw [ih, Table.get?_insert]
      by_cases hk : k' = k
      · simp [hk]
      · simp [hk, Ne.symm hk]

/-- If none fails, all of them are claimed. -/
theorem mem_claimed_iff {N : Key} {ds : List String} {owners : Table Key Key} {k : Key}
    (hok : (claim N ds owners).2 = .ok ()) : k ∈ claimed ds ↔ ∃ d ∈ ds, Uri.key d = .ok k := by
  refine ⟨key_of_mem_claimed, ?_⟩
  induction ds generalizing owners with
  | nil => simp
  | cons d ds ih =>
    rintro ⟨d', hm, hd'⟩
    rw [claim] at hok
    rw [claimed]
    cases hd : Uri.key d with
    | error e => simp [hd] at hok
    | ok k' =>
      rw [hd] at hok
      rcases List.mem_cons.mp hm with rfl | hm
      · obtain rfl := Except.ok.inj (hd.symm.trans hd')
        exact List.mem_cons_self
      · exact List.mem_cons_of_mem k' (ih hok ⟨d', hm, hd'⟩)

section Changes

variable {s : Store} {N k : Key}

theorem owners_unindex : (s.unindex N).owners.get? k = (s.owners.get? k).filter (· ≠ N) :=
  Table.get?_filter ..

theorem owners_unindex_eq_some {M : Key} :
    (s.unindex N).owners.get? k = some M ↔ M ≠ N ∧ s.owners.get? k = some M := by
  rw [owners_unindex, Option.filter_eq_some_iff]
  simp [and_comm]

theorem owners_reindex {n : Notebook} (hn : s.get? N = some n) :
    (s.reindex N).1.owners.get? k =
      if k ∈ claimed n.documents then some N else (s.unindex N).owners.get? k := by
  simp only [reindex, hn]
  exact get?_claim_eq N _ _ k

theorem hasCell_iff {n : Notebook} (hn : s.get? N = some n) :
    s.HasCell N k ↔ ∃ d ∈ n.documents, Uri.key d = .ok k := by
  simp [HasCell, hn, Notebook.documents]

theorem hasCell_congr {t : Store} {M : Key} (h : t.get? M = s.get? M) :
    t.HasCell M k ↔ s.HasCell M k := by
  rw [HasCell, HasCell, h]

theorem hasCell_reindex {M : Key} : (s.reindex N).1.HasCell M k ↔ s.HasCell M k :=
  hasCell_congr (get?_reindex s N M)

/-- However far it gets, indexing a notebook anew puts its own entries right. -/
theorem IndexedBut.reindex (h : s.IndexedBut N) : (s.reindex N).1.Indexed := by
  obtain ⟨n, hn⟩ := Option.isSome_iff_exists.mp h.here
  intro k M hM
  rw [hasCell_reindex]
  rw [owners_reindex hn] at hM
  split at hM
  · rename_i hk
    obtain rfl := Option.some.inj hM
    exact (hasCell_iff hn).mpr (key_of_mem_claimed hk)
  · obtain ⟨hne, hM⟩ := owners_unindex_eq_some.mp hM
    exact h.elsewhere k M hne hM

/-- Once all of a notebook is indexed, the cells that only it has are found. -/
theorem FindsBut.reindex (h : s.FindsBut N k) (hok : (s.reindex N).2 = .ok ()) (ha : s.Apart k) :
    (s.reindex N).1.Finds k := by
  obtain ⟨n, hn⟩ := Option.isSome_iff_exists.mp h.here
  have hclaimed : k ∈ claimed n.documents ↔ s.HasCell N k := by
    simp only [Store.reindex, hn] at hok
    rw [hasCell_iff hn]
    exact mem_claimed_iff hok
  intro M
  rw [hasCell_reindex, owners_reindex hn]
  by_cases hk : s.HasCell N k
  · rw [if_pos (hclaimed.mpr hk)]
    constructor
    · intro he
      exact Option.some.inj he ▸ hk
    · exact fun hM => congrArg some (ha N M hk hM)
  · rw [if_neg fun hm => hk (hclaimed.mp hm), owners_unindex_eq_some]
    by_cases hM : M = N
    · subst hM
      simp [hk]
    · simp [hM, h.elsewhere M hM]

theorem Indexed.unindex (h : s.Indexed) (N : Key) : (s.unindex N).Indexed := fun k M hM =>
  h k M (owners_unindex_eq_some.mp hM).2

/-- The list of one notebook is replaced. -/
theorem Indexed.relist {t : Store} (h : s.Indexed) (howners : t.owners = s.owners)
    (hothers : ∀ M, M ≠ N → t.get? M = s.get? M) (hhere : (t.get? N).isSome) : t.IndexedBut N where
  here := hhere
  elsewhere k M hM ho := (hasCell_congr (hothers M hM)).mpr (h k M (howners ▸ ho))

theorem FindsBut.relist {t : Store} (h : ∀ M, M ≠ N → (s.owners.get? k = some M ↔ s.HasCell M k))
    (howners : t.owners = s.owners) (hothers : ∀ M, M ≠ N → t.get? M = s.get? M)
    (hhere : (t.get? N).isSome) : t.FindsBut N k where
  here := hhere
  elsewhere M hM := by rw [howners, hasCell_congr (hothers M hM), h M hM]

end Changes

/-- What was done left the index and the documents of all cells as they were. -/
structure SameCells (s t : Store) : Prop where
  owners : t.owners = s.owners
  cells : ∀ N k, t.HasCell N k ↔ s.HasCell N k

theorem SameCells.refl (s : Store) : SameCells s s := ⟨rfl, fun _ _ => .rfl⟩

theorem SameCells.modify {s t : Store} (h : SameCells s t) {N : Key} {f : Notebook → Notebook}
    (hf : ∀ n, t.get? N = some n → (f n).documents = n.documents) : SameCells s (t.modify N f) where
  owners := h.owners
  cells M k := by
    rw [← h.cells M k]
    by_cases hM : N = M
    · subst hM
      cases hn : t.get? N with
      | none => exact hasCell_congr (by simp [get?_modify, hn])
      | some n =>
        have hn' : (t.modify N f).get? N = some (f n) := by simp [get?_modify, hn]
        rw [hasCell_iff hn, hasCell_iff hn', hf n hn]
    · exact hasCell_congr (by simp [get?_modify, hM])

theorem SameCells.indexed {s t : Store} (h : SameCells s t) (hs : s.Indexed) :
    t.Indexed := fun k N hN =>
  (h.cells N k).mpr (hs k N (h.owners ▸ hN))

theorem SameCells.finds {s t : Store} (h : SameCells s t) {k : Key} (hs : s.Finds k) :
    t.Finds k := fun N => by
  rw [h.owners, hs N, h.cells N k]

/-- A notebook that is closed leaves the index with its cells. -/
theorem owners_close_eq_some {s : Store} (hs : s.Indexed) {N M k : Key} :
    (s.close N).owners.get? k = some M ↔ M ≠ N ∧ s.owners.get? k = some M := by
  unfold close
  cases hn : s.get? N with
  | none =>
    refine ⟨fun hM => ⟨fun he => ?_, hM⟩, And.right⟩
    obtain ⟨m, hm, _⟩ := hs k M hM
    rw [he, hn] at hm
    cases hm
  | some n => exact owners_unindex_eq_some

theorem hasCell_close {s : Store} {N M k : Key} :
    (s.close N).HasCell M k ↔ M ≠ N ∧ s.HasCell M k := by
  simp only [HasCell, get?_close]
  by_cases hM : N = M
  · simp [hM]
  · simp [hM, Ne.symm hM]

theorem Indexed.close {s : Store} (hs : s.Indexed) (N : Key) : (s.close N).Indexed :=
  fun k M hM => by
  obtain ⟨hne, hM⟩ := (owners_close_eq_some hs).mp hM
  exact hasCell_close.mpr ⟨hne, hs k M hM⟩

theorem Finds.close {s : Store} (hs : s.Indexed) {k : Key} (hk : s.Finds k) (N : Key) :
    (s.close N).Finds k :=
  fun M => by rw [owners_close_eq_some hs, hasCell_close, hk M]

theorem indexed_clear : Store.clear.Indexed := fun _ _ hN => by cases hN

theorem finds_clear (k : Key) : Store.clear.Finds k := fun N => by
  simp [clear, HasCell, get?]

end Store

namespace Hub

theorem reindex_indexes (N : Key) :
    Act.Leaves (fun h => h.store.IndexedBut N) (reindex N) fun h => h.store.Indexed := by
  intro h hp
  rw [reindex_on]
  exact hp.reindex

/-- A notebook is put in its place, and its cells take the place of those it had before. -/
theorem putInStore_indexes (item : NotebookItem) (N : Key) :
    Act.Preserves (fun h => h.store.Indexed) (putInStore item N) := by
  have hmetadata : Act.Preserves (fun h => h.store.Indexed) (item.metadata.mapM metadataOf) := by
    cases item.metadata with
    | none => exact .pure _
    | some v => exact (metadataOf_preserves v).map some
  refine hmetadata.bind fun metadata => Act.Leaves.past (.modify _) (fun h hs => ?_)
    fun _ => reindex_indexes N
  exact hs.relist rfl (fun M hM => by simp [Store.get?, Ne.symm hM]) (by simp [Store.get?])

theorem openInStore_indexes (item : NotebookItem) :
    Act.Preserves (fun h => h.store.Indexed) (openInStore item) :=
  openInStore_preserves (fun _ _ hs => hs) (fun N _ hs => hs.unindex N)
    fun N _ => putInStore_indexes item N

theorem applyVersion_sameCells (s : Store) (N : Key) (version : Int) (metadata : Option Json) :
    Act.Preserves (fun h => s.SameCells h.store) (applyVersion N version metadata) := by
  refine (Act.Preserves.modify fun h hs => hs.modify fun _ _ => rfl).bind fun _ => ?_
  split
  · exact .pure _
  · exact (metadataOf_preserves _).bind fun _ => .modify fun h hs => hs.modify fun _ _ => rfl

theorem applyData_sameCells (s : Store) (N : Key) (updates : List Cell) :
    Act.Preserves (fun h => s.SameCells h.store) (applyData N updates) := by
  refine applyData_preserves (fun _ _ hs => hs) fun notebook h hn hs => hs.modify fun n hn' => ?_
  obtain rfl := Option.some.inj (hn.symm.trans hn')
  exact documents_applyCellData notebook.cells updates

/-- What follows the splice of a cell list does not touch the store. -/
theorem applyStructure_rest {P : Hub → Prop}
    (hdocuments : ∀ g documents, P g → P { g with documents }) (hnote : ∀ g n, P g → P (g.note n))
    (notebook : Notebook) (change : StructureChange) (token : Option Token) (cells : List Cell) :
    Act.Preserves P (do
      let opened ← registerOpens change.opened
        fun item => predecessorOf (cells.map Cell.document) item.uri
      let closed ← registerCloses change.closed
      let links ← match token with
        | some t => stage notebook.uri t
        | none => pure none
      return (⟨notebook.uri, token, opened ++ closed, links⟩ : StructuralUpdate)) := by
  refine (registerOpens_keeps hdocuments hnote _ _).bind fun _ => ?_
  refine (registerCloses_keeps hdocuments hnote _).bind fun _ => ?_
  cases token with
  | none => exact .pure _
  | some t => exact (stage_keeps hdocuments hnote _ _).bind fun _ => .pure _

theorem splice_indexes (N : Key) (notebook : Notebook) (change : StructureChange)
    (token : Option Token) :
    Act.Leaves (fun h => h.store.Indexed ∧ (h.store.get? N).isSome)
      (applyStructure N notebook change token)
      fun h => h.store.Indexed := by
  refine .past (.modify _) (R := fun h => h.store.IndexedBut N) (fun h hs => ?_) fun _ => ?_
  · exact hs.1.relist rfl (fun M hM => by simp [Store.get?_modify, Ne.symm hM])
      (by simpa [Store.get?_modify] using hs.2)
  refine (reindex_indexes N).bind fun _ => Act.Preserves.bind (.modify fun _ hs => hs) fun _ => ?_
  exact applyStructure_rest (fun _ _ hs => hs) (fun _ _ hs => hs) notebook change token _

theorem updateNotebook_sameCells (s : Store) (uri : String) (version : Json)
    (metadata : Option Json) :
    Act.Preserves (fun h => s.SameCells h.store) (updateNotebook uri version metadata) := by
  refine Act.Preserves.bind (.keyOf_bind fun N _ => .get_bind fun h hs => ?_) fun p => ?_
  · split <;> exact hs
  · dsimp only
    split
    · exact applyVersion_sameCells s _ _ _
    · exact .throw _

/-- Once a notebook is in its place and all of its cells are indexed, they are found. -/
theorem reindex_finds (N k : Key) :
    Act.Yields (fun h => h.store.FindsBut N k) (reindex N) fun _ g => g.store.Apart k →
      g.store.Finds k := by
  intro h g x hp hrun ha
  rw [reindex_on] at hrun
  obtain ⟨rfl, hok⟩ := Prod.mk.inj hrun
  have hapart : h.store.Apart k := fun M M' hM hM' =>
    ha M M' (Store.hasCell_reindex.mpr hM) (Store.hasCell_reindex.mpr hM')
  refine hp.reindex ?_ hapart
  cases hr : (h.store.reindex N).2 with
  | error e =>
    rw [hr] at hok
    cases hok
  | ok _ => rfl

theorem openInStore_finds (item : NotebookItem) (k : Key) :
    Act.Yields (fun h => h.store.Finds k) (openInStore item)
      fun _ g => g.store.Apart k → g.store.Finds k := by
  have hput (N : Key) : Act.Yields
      (fun h => ∀ M, M ≠ N → (h.store.owners.get? k = some M ↔ h.store.HasCell M k))
        (putInStore item N)
      fun _ g => g.store.Apart k → g.store.Finds k := by
    refine Act.Yields.bind (.of_preserves ?_) fun metadata => ?_
    · cases item.metadata with
      | none => exact .pure _
      | some v => exact (metadataOf_preserves v).map some
    refine Act.Yields.bind (.modify fun h hs => ?_) fun _ => reindex_finds N k
    exact Store.FindsBut.relist hs rfl (fun M hM => by simp [Store.get?, Ne.symm hM])
      (by simp [Store.get?])
  rw [openInStore_eq]
  refine .lift_bind fun N _ => .get_bind fun h => ?_
  dsimp only
  split
  · refine Act.Yields.bind (Q := fun _ g => g.store.Finds k) ?_ fun _ => ?_
    · exact .modify fun g hg => hg.2
    refine Act.Yields.bind (.modify fun g hg => ?_) fun _ => hput N
    intro M hM
    rw [Store.owners_unindex_eq_some, hg M]
    simp [hM, Store.HasCell, Store.get?, Store.unindex]
  · exact (hput N).mono fun g hg M _ => hg.2 M

theorem splice_finds (N : Key) (notebook : Notebook) (change : StructureChange)
    (token : Option Token) (k : Key) :
    Act.Yields (fun h => h.store.Finds k ∧ (h.store.get? N).isSome)
      (applyStructure N notebook change token)
      fun _ g => g.store.Apart k → g.store.Finds k := by
  refine Act.Yields.bind (Q := fun _ h => h.store.FindsBut N k) (.modify fun h hs => ?_) fun _ => ?_
  · exact Store.FindsBut.relist (fun M _ => hs.1 M) rfl
      (fun M hM => by simp [Store.get?_modify, Ne.symm hM])
      (by simpa [Store.get?_modify] using hs.2)
  refine (reindex_finds N k).bind fun _ => ?_
  refine Act.Yields.bind (.of_preserves (.modify fun _ hs => hs)) fun _ => .of_preserves ?_
  exact applyStructure_rest (fun _ _ hs => hs) (fun _ _ hs => hs) notebook change token _

inductive StoreStep
  | openNotebook (item : NotebookItem)
  | splice (uri : String) (change : StructureChange) (token : Option Token)
  | data (uri : String) (updates : List Cell)
  | stamp (uri : String) (version : Json) (metadata : Option Json)
  | close (uri : String)
  | clear

open Act in
/-- A notebook that is not open has no cells to splice, to put data in, or to close. -/
def StoreStep.act : StoreStep → Act Unit
  | .openNotebook item => openInStore item
  | .splice uri change token => do
    let key ← keyOf uri
    match (← get).store.get? key with
    | none => pure ()
    | some notebook =>
      let _ ← applyStructure key notebook change token
      return
  | .data uri updates => do applyData (← keyOf uri) updates
  | .stamp uri version metadata => updateNotebook uri version metadata
  | .close uri => do
    let key ← keyOf uri
    modify fun h => { h with store := h.store.close key }
  | .clear => modify fun h => { h with store := .clear }

def after (h : Hub) (steps : List StoreStep) : Hub := steps.foldl (fun h s => (s.act.on h).1) h

/-- An index that names only notebooks that have the cell is kept so by a step that fails, too. -/
theorem StoreStep.indexes (s : StoreStep) : Act.Preserves (fun h => h.store.Indexed) s.act := by
  cases s with
  | openNotebook item => exact openInStore_indexes item
  | splice uri change token =>
    refine .keyOf_bind fun N _ => .get_bind fun h hs => ?_
    split
    · exact hs
    · rename_i notebook hn
      exact (splice_indexes N notebook change token).bind (fun _ => .pure _) h ⟨hs, by simp [hn]⟩
  | data uri updates =>
    exact .keyOf_bind fun N _ h hs => (applyData_sameCells h.store N updates h (.refl _)).indexed hs
  | stamp uri version metadata =>
    exact fun h hs => (updateNotebook_sameCells h.store uri version metadata h (.refl _)).indexed hs
  | close uri => exact .keyOf_bind fun N _ => .modify fun h hs => hs.close N
  | clear => exact .modify fun h _ => Store.indexed_clear

/-- A step that succeeds leaves every cell to be found that at most one open notebook has. -/
theorem StoreStep.finds (s : StoreStep) (k : Key) :
    Act.Yields (fun h => h.store.Indexed ∧ h.store.Finds k) s.act
      fun _ g => g.store.Apart k → g.store.Finds k := by
  have hsame {a : Act Unit} (ha : ∀ s : Store, Act.Preserves (fun h => s.SameCells h.store) a) :
      Act.Yields (fun h => h.store.Indexed ∧ h.store.Finds k) a fun _ g => g.store.Apart k →
        g.store.Finds k := by
    intro h g x hp hrun _
    have hg := ha h.store h (.refl _)
    rw [hrun] at hg
    exact hg.finds hp.2
  cases s with
  | openNotebook item => exact (openInStore_finds item k).mono fun _ hp => hp.2
  | splice uri change token =>
    refine .lift_bind fun N _ => .get_bind fun h => ?_
    split
    · exact .pure fun g hg _ => hg.2.2
    · rename_i notebook hn
      refine ((splice_finds N notebook change token k).mono ?_).bind fun _ => .pure fun _ hg => hg
      rintro _ ⟨rfl, hp⟩
      exact ⟨hp.2, by simp [hn]⟩
  | data uri updates => exact hsame fun s => .keyOf_bind fun N _ => applyData_sameCells s N updates
  | stamp uri version metadata =>
    exact hsame fun s => updateNotebook_sameCells s uri version metadata
  | close uri => exact .lift_bind fun N _ => .modify fun h hp _ => hp.2.close hp.1 N
  | clear => exact .modify fun h _ _ => Store.finds_clear k

/-- No step fails, and no two open notebooks have one cell after any of them. -/
def Smooth (h : Hub) : List StoreStep → Prop
  | [] => True
  | s :: steps =>
    (s.act.on h).2 = .ok () ∧ (∀ k, (s.act.on h).1.store.Apart k) ∧ (s.act.on h).1.Smooth steps

instance decidableSmooth : (h : Hub) → (steps : List StoreStep) → Decidable (h.Smooth steps)
  | _, [] => .isTrue trivial
  | h, s :: steps =>
    have := decidableSmooth (s.act.on h).1 steps
    inferInstanceAs (Decidable ((s.act.on h).2 = .ok () ∧ (∀ k, (s.act.on h).1.store.Apart k) ∧ _))

section Running

variable {h : Hub} {steps : List StoreStep}

theorem after_indexed (hs : h.store.Indexed) : (h.after steps).store.Indexed := by
  induction steps generalizing h with
  | nil => exact hs
  | cons s steps ih => exact ih (s.indexes h hs)

theorem after_finds (hs : h.store.Indexed) (hf : ∀ k, h.store.Finds k)
    (hsmooth : h.Smooth steps) (k : Key) :
    (h.after steps).store.Finds k := by
  induction steps generalizing h with
  | nil => exact hf k
  | cons s steps ih =>
    obtain ⟨hok, hapart, hrest⟩ := hsmooth
    exact ih (s.indexes h hs)
      (fun k => s.finds k h _ () ⟨hs, hf k⟩ (Prod.ext rfl hok) (hapart k)) hrest

/-- Where the index is right, it answers with a notebook just for the cells that the notebook
has. -/
theorem ownerOf_iff (hf : ∀ k, h.store.Finds k) {N : Key} {n : Notebook}
    (hn : h.store.get? N = some n) (uri : String) :
    ownerOf h uri = .ok (some n) ↔ ∃ k, Uri.key uri = .ok k ∧
      ∃ c ∈ n.cells, Uri.key c.document = .ok k := by
  unfold ownerOf
  cases Uri.key uri with
  | error e => simp [Except.map]
  | ok k =>
    simp only [Except.map, Except.ok.injEq, Store.ownerOf?, Option.bind_eq_some_iff,
      exists_eq_left']
    constructor
    · rintro ⟨M, hM, hn'⟩
      obtain ⟨m, hm, hcell⟩ := (hf k M).mp hM
      obtain rfl := Option.some.inj (hm.symm.trans hn')
      exact hcell
    · exact fun hcell => ⟨N, (hf k N).mpr ⟨n, hn, hcell⟩, hn⟩

/-- After any steps on an empty store, failed ones included, an entry of the index names an open
notebook that has the cell; and if none failed and no two open notebooks ever had one cell, the
notebook that is found for a URI is the one that has its cell. -/
theorem index_follows_cells (hempty : h.store = {}) (steps : List StoreStep) :
    (∀ k N, (h.after steps).store.owners.get? k = some N →
      ∃ n, (h.after steps).store.get? N = some n ∧ ∃ c ∈ n.cells, Uri.key c.document = .ok k) ∧
    (h.Smooth steps → ∀ uri N n, (h.after steps).store.get? N = some n →
      (ownerOf (h.after steps) uri = .ok (some n) ↔
        ∃ k, Uri.key uri = .ok k ∧ ∃ c ∈ n.cells, Uri.key c.document = .ok k)) := by
  have hindexed : h.store.Indexed := hempty ▸ Store.indexed_clear
  have hfinds (k : Key) : h.store.Finds k := hempty ▸ Store.finds_clear k
  exact ⟨after_indexed hindexed, fun hsmooth uri N n hn =>
    ownerOf_iff (after_finds hindexed hfinds hsmooth) hn uri⟩

end Running

def codeCell (document : String) : Cell := ⟨.code, document, none, none⟩

/-- A cell that is listed twice goes, another one moves from one notebook to the other, and the
first notebook is opened anew. -/
def moves : List StoreStep :=
  [.openNotebook ⟨"nb:1", "t", 1, none, [codeCell "c:a", codeCell "c:b", codeCell "c:a"]⟩,
    .openNotebook ⟨"nb:2", "t", 1, none, [codeCell "c:c"]⟩,
    .splice "nb:1" ⟨1, 2, [codeCell "c:d"], [], []⟩ none,
    .splice "nb:2" ⟨1, 0, [codeCell "c:b"], [], []⟩ none,
    .data "nb:2" [codeCell "c:b"],
    .openNotebook ⟨"nb:1", "t", 2, none, [codeCell "c:d", codeCell "c:e"]⟩]

/-- The cell that moved is found in its new notebook. -/
theorem index_follows_cells_moves :
    (start {}).Smooth moves ∧
      ∃ n, ((start {}).after moves).store.get? ⟨"nb:2"⟩ = some n ∧
        ownerOf ((start {}).after moves) "c:b" = .ok (some n) ∧
        ¬ ownerOf ((start {}).after moves) "c:a" = .ok (some n) := by
  have hsmooth : (start {}).Smooth moves := by decide +kernel
  obtain ⟨n, hn, hcells⟩ : ∃ n, ((start {}).after moves).store.get? ⟨"nb:2"⟩ = some n ∧
      n.cells = [codeCell "c:c", codeCell "c:b"] := Option.map_eq_some_iff.mp (by rfl)
  have hfound := fun uri => (index_follows_cells (h := start {}) rfl moves).2 hsmooth uri _ n hn
  refine ⟨hsmooth, n, hn, (hfound "c:b").mpr ⟨⟨"c:b"⟩, by decide +kernel, ?_⟩, fun ha => ?_⟩
  · rw [hcells]
    decide +kernel
  · have hkey : Uri.key "c:a" = .ok ⟨"c:a"⟩ := by decide +kernel
    obtain ⟨k, hk, hcell⟩ := (hfound "c:a").mp ha
    obtain rfl : ⟨"c:a"⟩ = k := Except.ok.inj (hkey.symm.trans hk)
    rw [hcells] at hcell
    revert hcell
    decide +kernel

end Hub
end NotebookHub
