namespace NotebookHub

variable {α : Type}

/-- The place that `start` means in a list of `length` elements. -/
def clampStart (start : Int) (length : Nat) : Nat := min start.toNat length

/-- The list after the splice, and what was taken out. -/
def splice (cells : List α) (start count : Int) (inserted : List α) : List α × List α :=
  let s := clampStart start cells.length
  let removed := (cells.drop s).take count.toNat
  (cells.take s ++ inserted ++ cells.drop (s + removed.length), removed)

end NotebookHub
