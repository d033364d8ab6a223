import NotebookHub.Notebook.CellData
import NotebookHub.Proofs.Lookups

namespace NotebookHub

def lastUpdate? (updates : List Cell) (document : String) : Option Cell :=
  updates.reverse.find? (·.document = document)

def Cell.withData (c u : Cell) : Cell :=
  { c with kind := u.kind, metadata := u.metadata, execution := u.execution }

/-- The same walk to the last cell, also when nothing is left to place. -/
def takeDataToEnd (pending : Table String Cell) : List Cell → List Cell × Table String Cell
  | [] => ([], pending)
  | c :: cs =>
    match pending.get? c.document with
    | none =>
      let (cs, rest) := takeDataToEnd pending cs
      (c :: cs, rest)
    | some u =>
      let (cs, rest) := takeDataToEnd (pending.erase c.document) cs
      (c.withData u :: cs, rest)

theorem takeDataToEnd_of_empty {pending : Table String Cell} (h : pending.size = 0)
    (cells : List Cell) :
    takeDataToEnd pending cells = (cells, pending) := by
  have hnone (d : String) : pending.get? d = none := by
    simp [Table.get?, List.eq_nil_of_length_eq_zero h]
  induction cells with
  | nil => rfl
  | cons c cs ih => simp [takeDataToEnd, hnone, ih]

theorem takeData_eq (pending : Table String Cell) (cells : List Cell) :
    takeData pending cells = takeDataToEnd pending cells := by
  fun_induction takeData pending cells with
  | case1 => rfl
  | case2 pending c cs hempty => rw [takeDataToEnd_of_empty hempty]
  | case3 pending c cs _ hc cs' rest hrest ih => simp [takeDataToEnd, hc, ← ih, hrest]
  | case4 pending c cs _ u hc cs' rest hrest ih =>
    simp [takeDataToEnd, hc, ← ih, hrest, Cell.withData]

section Walks

variable (pending : Table String Cell) (cells : List Cell)

theorem documents_takeDataToEnd :
    (takeDataToEnd pending cells).1.map Cell.document = cells.map Cell.document := by
  rw [← takeData_eq, documents_takeData]

/-- A cell takes what is pending for its document, unless a cell before it has. -/
theorem getElem?_takeDataToEnd (i : Nat) :
    (takeDataToEnd pending cells).1[i]? = cells[i]?.map fun c =>
      if c.document ∈ (cells.take i).map Cell.document then c
      else ((pending.get? c.document).map c.withData).getD c := by
  induction cells generalizing pending i with
  | nil => simp [takeDataToEnd]
  | cons c cs ih =>
    cases hc : pending.get? c.document with
    | none =>
      cases i with
      | zero => simp [takeDataToEnd, hc]
      | succ i =>
        simp only [takeDataToEnd, hc, List.getElem?_cons_succ, ih, List.take_succ_cons,
          List.map_cons, List.mem_cons]
        refine congrFun (congrArg Option.map (funext fun c' => ?_)) _
        by_cases hd : c'.document = c.document
        · simp [hd, hc]
        · simp [hd]
    | some u =>
      cases i with
      | zero => simp [takeDataToEnd, hc]
      | succ i =>
        simp only [takeDataToEnd, hc, List.getElem?_cons_succ, ih, List.take_succ_cons,
          List.map_cons, List.mem_cons, Table.get?_erase]
        refine congrFun (congrArg Option.map (funext fun c' => ?_)) _
        by_cases hd : c'.document = c.document
        · simp [hd]
        · simp [hd, Ne.symm hd]

/-- What no cell takes is left, in the order in which it stood. -/
theorem takeDataToEnd_rest :
    (takeDataToEnd pending cells).2 = pending.filter fun d _ => d ∉ cells.map Cell.document := by
  induction cells generalizing pending with
  | nil => exact (Table.filter_self (by simp)).symm
  | cons c cs ih =>
    cases hc : pending.get? c.document with
    | none =>
      simp only [takeDataToEnd, hc, ih]
      refine Table.filter_congr fun d u hd => ?_
      have hne : d ≠ c.document := by
        rintro rfl
        simp [hc] at hd
      simp [hne]
    | some u =>
      simp only [takeDataToEnd, hc, ih, Table.erase, Table.filter_filter]
      exact Table.filter_congr fun d u hd => by simp

/-- Walking again takes the same, and leaves the same. -/
theorem takeDataToEnd_again :
    takeDataToEnd pending (takeDataToEnd pending cells).1 = takeDataToEnd pending cells := by
  have hdocuments := documents_takeDataToEnd pending cells
  refine Prod.ext (List.ext_getElem? fun i => ?_) ?_
  · rw [getElem?_takeDataToEnd, List.map_take, hdocuments, ← List.map_take, getElem?_takeDataToEnd,
      Option.map_map]
    refine congrFun (congrArg Option.map (funext fun c => ?_)) _
    by_cases hc : c.document ∈ (cells.take i).map Cell.document
    · simp only [Function.comp_apply, if_pos hc]
    · simp only [Function.comp_apply, if_neg hc]
      cases hu : pending.get? c.document with
      | none => simp [hu]
      | some u => simp [hu, Cell.withData]
  · simp only [takeDataToEnd_rest, hdocuments]

end Walks

theorem get?_pendingUpdates (updates : List Cell) :
    (pendingUpdates updates).get? = lastUpdate? updates := by
  funext d
  rw [pendingUpdates, Table.get?_ofList, ← List.map_reverse, List.find?_map, Option.map_map]
  simp [lastUpdate?, Function.comp_def]

theorem keys_pendingUpdates (updates : List Cell) :
    (pendingUpdates updates).keys = (updates.map Cell.document).eraseDups := by
  rw [pendingUpdates, Table.keys_ofList, List.map_map]
  rfl

theorem applyCellData_eq (cells updates : List Cell) :
    applyCellData cells updates = ((takeDataToEnd (pendingUpdates updates) cells).1,
      (takeDataToEnd (pendingUpdates updates) cells).2.values) := by
  rw [applyCellData, takeData_eq]

theorem getElem?_applyCellData {cells updates : List Cell} {i : Nat} {c : Cell}
    (hc : cells[i]? = some c) :
    (applyCellData cells updates).1[i]? = some
    (if c.document ∈ (cells.take i).map Cell.document then c
      else ((lastUpdate? updates c.document).map c.withData).getD c) := by
  rw [applyCellData_eq, getElem?_takeDataToEnd, hc, Option.map_some, get?_pendingUpdates]

/-- The updates that no cell takes: for each document that no cell has the last one. -/
theorem applyCellData_rest (cells updates : List Cell) : (applyCellData cells updates).2 =
    ((updates.map Cell.document).eraseDups.filter (· ∉ cells.map Cell.document)).filterMap
      (lastUpdate? updates) := by
  rw [applyCellData_eq, takeDataToEnd_rest, Table.values_filter, keys_pendingUpdates,
    get?_pendingUpdates]

/-- Data is joined to cells by document, whatever the lists are. Neither the number of the cells nor
their documents change; the first cell of each document takes kind, metadata and execution from the
last update for it, and every other cell stays as it is. What is left is the last update for each
document that no cell has, in the order in which these documents first came. It is the same as going
on to the last cell, and the same updates again change nothing. -/
theorem data_joins_cells (cells updates : List Cell) :
    let joined := (applyCellData cells updates).1
    joined.length = cells.length ∧ joined.map Cell.document = cells.map Cell.document ∧
    (∀ i c u, cells[i]? = some c → c.document ∉ (cells.take i).map Cell.document →
      lastUpdate? updates c.document = some u →
      joined[i]? =
        some { c with kind := u.kind, metadata := u.metadata, execution := u.execution }) ∧
    (∀ i c, cells[i]? = some c →
      c.document ∈ (cells.take i).map Cell.document ∨ lastUpdate? updates c.document = none →
      joined[i]? = some c) ∧
    (applyCellData cells updates).2 =
      ((updates.map Cell.document).eraseDups.filter (· ∉ cells.map Cell.document)).filterMap
        (lastUpdate? updates) ∧
    applyCellData cells updates = ((takeDataToEnd (pendingUpdates updates) cells).1,
      (takeDataToEnd (pendingUpdates updates) cells).2.values) ∧
    applyCellData joined updates = applyCellData cells updates := by
  have hdocuments := documents_applyCellData cells updates
  refine ⟨?_, hdocuments, ?_, ?_, applyCellData_rest cells updates,
    applyCellData_eq cells updates, ?_⟩
  · simpa using congrArg List.length hdocuments
  · intro i c u hc hfirst hu
    rw [getElem?_applyCellData hc, if_neg hfirst, hu]
    rfl
  · rintro i c hc (hbefore | hnone)
    · rw [getElem?_applyCellData hc, if_pos hbefore]
    · simp [getElem?_applyCellData hc, hnone]
  · simp only [applyCellData_eq, takeDataToEnd_again]

/-- The cell "c:a" is listed twice, and so are the updates for it and for "c:x", which no cell
has. -/
def listedTwice : List Cell := ["c:a", "c:b", "c:a"].map fun d => ⟨.code, d, none, none⟩

def updatedTwice : List Cell :=
  [⟨.code, "c:a", some (.int 1), none⟩, ⟨.code, "c:x", some (.int 2), none⟩,
    ⟨.code, "c:y", none, none⟩,
    ⟨.markup, "c:a", some (.int 3), some ⟨4, some true⟩⟩, ⟨.markup, "c:x", some (.int 5), none⟩]

theorem data_joins_cells_twice :
    (applyCellData listedTwice updatedTwice).1[0]? =
    some ⟨.markup, "c:a", some (.int 3), some ⟨4, some true⟩⟩ ∧
    (applyCellData listedTwice updatedTwice).1[1]? = some ⟨.code, "c:b", none, none⟩ ∧
    (applyCellData listedTwice updatedTwice).1[2]? = some ⟨.code, "c:a", none, none⟩ ∧
    (applyCellData listedTwice updatedTwice).2 =
      [⟨.markup, "c:x", some (.int 5), none⟩, ⟨.code, "c:y", none, none⟩] := by
  obtain ⟨_, _, htakes, hkeeps, hrest, _⟩ := data_joins_cells listedTwice updatedTwice
  exact ⟨htakes 0 ⟨.code, "c:a", none, none⟩ ⟨.markup, "c:a", some (.int 3), some ⟨4, some true⟩⟩
    rfl (by decide) rfl,
    hkeeps 1 _ rfl (.inr rfl), hkeeps 2 _ rfl (.inl (by decide)), hrest.trans rfl⟩

end NotebookHub
