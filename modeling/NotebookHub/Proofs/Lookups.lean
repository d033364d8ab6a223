import NotebookHub.Document.Registry
import NotebookHub.Notebook.CellData
import NotebookHub.Notebook.Chain
import NotebookHub.Notebook.Splice
import NotebookHub.Notebook.Store
import NotebookHub.Proofs.Tables

namespace NotebookHub

namespace Registry

theorem get?_enter (r : Registry) (o : Opening) (k : Key) :
    (r.enter o).1.get? k = if o.address.key = k then some (r.enter o).2 else r.get? k := by
  unfold enter
  split <;> simp [get?]

theorem lives_enter {r : Registry} {o : Opening} {k : Key} (h : o.address.key ≠ k) :
    (r.enter o).1.lives.get? k = r.lives.get? k := by
  unfold enter
  split <;> simp [h]

theorem get?_update (r : Registry) (k k' : Key) (edits : List Edit) (version : Int) :
    (r.update k edits version).1.get? k' =
      if k = k' then (r.get? k').map fun d =>
        { d with text := (Edit.applyAll edits d.text).1, version }
      else r.get? k' := by
  unfold update
  by_cases hk : k = k'
  · subst hk
    split <;> simp_all [get?]
  · split <;> simp [get?, hk]

/-- The edits of an open document are settled on its text. -/
theorem update_settled {r : Registry} {k : Key} {d : Document} (edits : List Edit) (version : Int)
    (h : r.get? k = some d) :
    (r.update k edits version).2 = (Edit.applyAll edits d.text).2 := by
  simp [update, h]

@[simp] theorem lives_update (r : Registry) (k : Key) (edits : List Edit) (version : Int) :
    (r.update k edits version).1.lives = r.lives := by
  unfold update
  split <;> rfl

theorem get?_link (r : Registry) (k k' : Key) (predecessor : Option String) :
    (r.link k predecessor).get? k' =
      if k = k' then (r.get? k').map fun d => { d with predecessor } else r.get? k' := by
  simp [link, get?]

theorem get?_close (r : Registry) (k k' : Key) :
    (r.close k).get? k' = if k = k' then none else r.get? k' := by
  simp [close, get?]

end Registry

namespace Store

def Filed (s : Store) : Prop := ∀ k n, s.get? k = some n → Uri.key n.uri = .ok k

theorem get?_modify (s : Store) (k k' : Key) (f : Notebook → Notebook) :
    (s.modify k f).get? k' = if k = k' then (s.get? k').map f else s.get? k' := by
  simp [modify, get?]

theorem get?_close (s : Store) (k k' : Key) :
    (s.close k).get? k' = if k = k' then none else s.get? k' := by
  unfold close
  by_cases hk : k = k'
  · subst hk
    split <;> simp_all [get?, unindex]
  · split <;> simp [get?, unindex, hk]

@[simp] theorem notebooks_reindex (s : Store) (k : Key) :
    (s.reindex k).1.notebooks = s.notebooks := by
  unfold reindex
  split <;> rfl

theorem get?_reindex (s : Store) (k k' : Key) : (s.reindex k).1.get? k' = s.get? k' := by
  simp [get?]

/-- The index is complete only if every document that a cell names has a key. -/
theorem key_of_claim {notebook : Key} {ds : List String} {owners : Table Key Key}
    (h : (claim notebook ds owners).2 = .ok ()) : ∀ d ∈ ds, ∃ k, Uri.key d = .ok k := by
  induction ds generalizing owners with
  | nil => simp
  | cons d ds ih =>
    simp only [claim] at h
    cases hd : Uri.key d with
    | error e => simp [hd] at h
    | ok k =>
      simp only [hd] at h
      intro d' hm
      rcases List.mem_cons.mp hm with rfl | hm
      · exact ⟨k, hd⟩
      · exact ih h d' hm

theorem key_of_reindex {s : Store} {k : Key} {n : Notebook} (hn : s.get? k = some n)
    (h : (s.reindex k).2 = .ok ()) : ∀ d ∈ n.documents, ∃ k, Uri.key d = .ok k := by
  simp only [reindex, hn] at h
  exact key_of_claim h

theorem Filed.modify {s : Store} (h : s.Filed) (k : Key) {f : Notebook → Notebook}
    (hf : ∀ n, (f n).uri = n.uri) : (s.modify k f).Filed := by
  intro k' n hn
  rw [get?_modify] at hn
  split at hn
  · obtain ⟨m, hm, rfl⟩ := Option.map_eq_some_iff.mp hn
    rw [hf]
    exact h k' m hm
  · exact h k' n hn

theorem Filed.close {s : Store} (h : s.Filed) (k : Key) : (s.close k).Filed := by
  intro k' n hn
  rw [get?_close] at hn
  split at hn
  · contradiction
  · exact h k' n hn

end Store

/-- New data never moves a cell or changes what document it names. -/
theorem documents_takeData (pending : Table String Cell) (cells : List Cell) :
    (takeData pending cells).1.map Cell.document = cells.map Cell.document := by
  induction cells generalizing pending with
  | nil => rfl
  | cons c cs ih =>
    simp only [takeData]
    split
    · rfl
    · split <;> simp [ih]

theorem documents_applyCellData (cells updates : List Cell) :
    (applyCellData cells updates).1.map Cell.document = cells.map Cell.document :=
  documents_takeData (pendingUpdates updates) cells

/-- A spliced list holds nothing that was neither there nor put in. -/
theorem mem_of_mem_splice {α : Type} {cells inserted : List α} {start count : Int} {c : α}
    (h : c ∈ (splice cells start count inserted).1) : c ∈ cells ∨ c ∈ inserted := by
  simp only [splice, List.mem_append] at h
  rcases h with (h | h) | h
  · exact .inl (List.mem_of_mem_take h)
  · exact .inr h
  · exact .inl (List.mem_of_mem_drop h)

end NotebookHub
