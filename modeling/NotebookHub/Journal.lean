import NotebookHub.Document.Registry

namespace NotebookHub

inductive Level
  | debug
  | info
  | warning
  | error
  deriving DecidableEq, Repr

def Level.text : Level → String
  | .debug => "DEBUG"
  | .info => "INFO"
  | .warning => "WARNING"
  | .error => "ERROR"

inductive Origin
  | documents
  | notebooks
  | cellList
  | cellData
  | chaining
  | pipeline
  | workspace
  | engine
  | server
  deriving DecidableEq, Repr

def Origin.text : Origin → String
  | .documents => "cellchain.documents"
  | .notebooks => "cellchain.notebooks"
  | .cellList => "cellchain.structure"
  | .cellData => "cellchain.cell_data"
  | .chaining => "cellchain.chaining"
  | .pipeline => "cellchain.pipeline"
  | .workspace => "cellchain.workspace"
  | .engine => "cellchain.engine"
  | .server => "cellchain.server"

inductive Note
  | documentOpenedAgain (uri : String)
  | changeOfClosedDocument (uri : String)
  | notebookOpenedAgain (uri : String)
  | spliced (notebook : String) (removed inserted start : Nat)
  /-- Data for documents that no cell has. -/
  | unmatchedData (notebook : String) (documents : List String) (reported : Bool)
  | duplicateCells (notebook : String)
  | passSuperseded (notebook : String)
  | passPublished (notebook : String) (cells : Nat)
  | openDocument (uri : String) (mode : Mode) (predecessor : Option String)
  | changeDocument (uri : String) (version : Int) (mode : Mode)
  | closeDocument (uri : String)
  | noticeDropped (uri : String)
  | workspaceAdded (name root : String)
  | changeIgnored (workspace uri : String)
  | linkIgnored (workspace uri : String)
  | openNotebook (uri : String) (cells : Nat) (version : Int)
  | changeNotebook (uri : String) (version : Int)
  | saveNotebook (uri : String)
  | closeNotebook (uri : String)
  | changeOfClosedNotebook (uri : String)
  | closeOfUnknownNotebook (uri : String)
  | shutdown (notebooks : Nat)
  | initialized (folders : Nat)
  deriving DecidableEq, Repr

namespace Note

def level : Note → Level
  | documentOpenedAgain _ | changeOfClosedDocument _ | notebookOpenedAgain _
  | changeOfClosedNotebook _ => .error
  | unmatchedData _ _ reported => if reported then .warning else .debug
  | duplicateCells _ | closeOfUnknownNotebook _ => .warning
  | workspaceAdded .. | openNotebook .. | closeNotebook _ | shutdown _ | initialized _ => .info
  | _ => .debug

def origin : Note → Origin
  | documentOpenedAgain _ | changeOfClosedDocument _ => .documents
  | notebookOpenedAgain _ => .notebooks
  | spliced .. => .cellList
  | unmatchedData .. => .cellData
  | duplicateCells _ | passSuperseded _ | passPublished .. => .chaining
  | openDocument .. | changeDocument .. | closeDocument _ | noticeDropped _ => .pipeline
  | workspaceAdded .. | changeIgnored .. | linkIgnored .. => .workspace
  | openNotebook .. | changeNotebook .. | saveNotebook _ | closeNotebook _
  | changeOfClosedNotebook _ | closeOfUnknownNotebook _ | shutdown _ => .engine
  | initialized _ => .server

def text : Note → String
  | documentOpenedAgain uri => s!"Received redundant open text document command for {uri}"
  | changeOfClosedDocument uri => s!"Received change text document command for closed file {uri}"
  | notebookOpenedAgain uri => s!"Received redundant open notebook document command for {uri}"
  | spliced notebook removed inserted start =>
    s!"{notebook}: spliced {removed} cell(s) out and {inserted} in at {start}"
  | unmatchedData notebook documents _ =>
    s!"{notebook}: dropped cell data for {documents.length} unknown cell(s): " ++
      ", ".intercalate documents
  | duplicateCells notebook =>
    s!"{notebook}: cell list contains duplicate documents; chain not published"
  | passSuperseded notebook => s!"{notebook}: chain pass superseded"
  | passPublished notebook cells => s!"{notebook}: published chain of {cells} cell(s)"
  | openDocument uri mode predecessor =>
    let chained := predecessor.getD "None"
    s!"open {uri} (mode={mode.text}, chained={chained})"
  | changeDocument uri version mode => s!"change {uri} v{version} (mode={mode.text})"
  | closeDocument uri => s!"close {uri}"
  | noticeDropped uri => s!"{uri} is no longer open; notice dropped"
  | workspaceAdded name root => s!"added workspace {name} at {root}"
  | changeIgnored workspace uri => s!"workspace {workspace} ignoring change for unopened {uri}"
  | linkIgnored workspace uri => s!"workspace {workspace} ignoring chain for unopened {uri}"
  | openNotebook uri cells version => s!"open notebook {uri} ({cells} cells, v{version})"
  | changeNotebook uri version => s!"change notebook {uri} (v{version})"
  | saveNotebook uri => s!"save notebook {uri}"
  | closeNotebook uri => s!"close notebook {uri}"
  | changeOfClosedNotebook uri => s!"notebookDocument/didChange: notebook is not open: {uri}"
  | closeOfUnknownNotebook uri =>
    "notebookDocument/didClose: Received close notebook document command for unknown notebook " ++
      uri
  | shutdown notebooks => s!"shutdown: dropping {notebooks} notebook(s)"
  | initialized folders => s!"initialized with {folders} workspace folder(s)"

end Note
end NotebookHub
