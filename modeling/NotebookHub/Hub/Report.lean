import NotebookHub.Hub.State
import NotebookHub.Notebook.Chain

namespace NotebookHub

structure CellReport where
  document : String
  kind : CellKind
  predecessor : Option String
  language : Option String
  version : Option Int
  isOpen : Bool
  deriving DecidableEq, Repr

structure NotebookReport where
  uri : String
  type : String := ""
  version : Int := 0
  metadata : Metadata := {}
  cells : List CellReport := []
  chainable : Bool
  errors : List String := []

namespace Hub

def reportLanguage (d : Option Document) : Except Fault (Option String) :=
  match d with
  | none => .ok none
  | some d =>
    match d.language.reported? with
    | some language => .ok language
    | none => .error (.language d.address.uri)

def reportCell (h : Hub) (c : Cell) : Except Fault CellReport := do
  let d := h.documents.get? (← (Uri.key c.document).mapError .uri)
  let language ← reportLanguage d
  return {
    document := c.document
    kind := c.kind
    predecessor := d.bind Document.predecessor
    language
    version := d.map Document.version
    isOpen := d.isSome }

/-- A notebook that is not open has a report that says so. -/
def report (h : Hub) (uri : String) : Except Fault NotebookReport := do
  match h.store.get? (← (Uri.key uri).mapError .uri) with
  | none => return { uri, chainable := false, errors := [notOpenMessage uri] }
  | some n =>
    let cells ← n.cells.mapM h.reportCell
    let metadata := n.metadata.getD {}
    if !metadata.isPlain then throw (.metadataNames n.uri)
    return {
      uri := n.uri
      type := n.type
      version := n.version
      metadata
      cells
      chainable := !hasDuplicates n.documents }

end Hub
end NotebookHub
