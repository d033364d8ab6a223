import NotebookHub.Notebook.Cell
import NotebookHub.Table
import NotebookHub.Uri.Address

namespace NotebookHub

structure Store where
  notebooks : Table Key Notebook := .empty
  /-- Cell key to notebook key. -/
  owners : Table Key Key := .empty

namespace Store

def get? (s : Store) (k : Key) : Option Notebook := s.notebooks.get? k

def unindex (s : Store) (notebook : Key) : Store :=
  { s with owners := s.owners.filter fun _ owner => owner ≠ notebook }

/-- Makes `notebook` the owner of each document, up to the first that has no key. -/
def claim (notebook : Key) : List String → Table Key Key → Table Key Key × Except Uri.Error Unit
  | [], owners => (owners, .ok ())
  | d :: ds, owners =>
    match Uri.key d with
    | .ok k => claim notebook ds (owners.insert k notebook)
    | .error e => (owners, .error e)

/-- Indexes the cells of a notebook anew. A cell without a key ends this early. -/
def reindex (s : Store) (notebook : Key) : Store × Except Uri.Error Unit :=
  match s.get? notebook with
  | none => (s, .ok ())
  | some n =>
    let (owners, result) := claim notebook (n.cells.map Cell.document) (s.unindex notebook).owners
    ({ s with owners }, result)

/-- Changes a notebook that is open; its cells are not indexed anew. -/
def modify (s : Store) (k : Key) (f : Notebook → Notebook) : Store :=
  { s with notebooks := s.notebooks.modify k f }

def ownerOf? (s : Store) (cell : Key) : Option Notebook :=
  (s.owners.get? cell).bind s.get?

def close (s : Store) (k : Key) : Store :=
  match s.get? k with
  | none => s
  | some _ => { s with notebooks := s.notebooks.erase k }.unindex k

def clear : Store := {}

end Store
end NotebookHub
