import NotebookHub.Document.Edit
import NotebookHub.Document.Language
import NotebookHub.Notebook.Cell

namespace NotebookHub

structure TextItem where
  uri : String
  language : Language
  version : Int
  text : String
  deriving DecidableEq, Repr

structure NotebookItem where
  uri : String
  type : String
  version : Int
  metadata : Option Json
  cells : List Cell
  deriving Repr

structure StructureChange where
  start : Nat
  deleteCount : Nat
  inserted : List Cell
  opened : List TextItem
  closed : List String
  deriving Repr

structure ContentChange where
  uri : String
  version : Int
  edits : List Edit
  deriving DecidableEq, Repr

structure NotebookChange where
  metadata : Option Json
  structural : Option StructureChange
  data : Option (List Cell)
  content : Option (List ContentChange)
  deriving Repr

inductive Notification
  | openNotebook (notebook : NotebookItem) (items : List TextItem)
  | changeNotebook (uri : String) (version : Int) (change : NotebookChange)
  | saveNotebook (uri : String)
  | closeNotebook (uri : String) (cells : List String)
  | openDocument (item : TextItem)
  | changeDocument (change : ContentChange)
  | closeDocument (uri : String)
  deriving Repr

end NotebookHub
