import NotebookHub.Notebook.Metadata

namespace NotebookHub

inductive CellKind
  | markup
  | code
  deriving DecidableEq, Repr

def CellKind.text : CellKind → String
  | .markup => "markup"
  | .code => "code"

structure Execution where
  order : Nat
  success : Option Bool
  deriving DecidableEq, Repr

structure Cell where
  kind : CellKind
  document : String
  metadata : Option Json
  execution : Option Execution
  deriving Repr

structure Notebook where
  uri : String
  type : String
  version : Int
  metadata : Option Metadata
  cells : List Cell

end NotebookHub
