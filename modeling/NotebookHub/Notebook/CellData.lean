import NotebookHub.Notebook.Cell
import NotebookHub.Table

namespace NotebookHub

/-- The updates to place: the last for each document, in the order in which documents first came. -/
def pendingUpdates (updates : List Cell) : Table String Cell :=
  Table.ofList (updates.map fun u => (u.document, u))

/-- Walks the cells and takes each one's update out of `pending`, stopping when none is left. -/
def takeData (pending : Table String Cell) : List Cell → List Cell × Table String Cell
  | [] => ([], pending)
  | c :: cs =>
    if pending.size = 0 then (c :: cs, pending)
    else
      match pending.get? c.document with
      | none =>
        let (cs, rest) := takeData pending cs
        (c :: cs, rest)
      | some u =>
        let (cs, rest) := takeData (pending.erase c.document) cs
        ({ u with document := c.document } :: cs, rest)

/-- The cells with their data replaced, and the updates that no cell took. -/
def applyCellData (cells updates : List Cell) : List Cell × List Cell :=
  let (cells, rest) := takeData (pendingUpdates updates) cells
  (cells, rest.values)

end NotebookHub
