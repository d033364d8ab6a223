import NotebookHub.Hub.State
import NotebookHub.Notebook.CellData
import NotebookHub.Notebook.Chain
import NotebookHub.Notebook.Splice
import NotebookHub.Notification.Basic

namespace NotebookHub

inductive Notice
  | opened (document : Address) (life : Nat) (version : Int) (text : String) (mode : Mode)
      (predecessor : Option String)
  | changed (document : Address) (life : Nat) (edits : List Edit) (version : Int)
  | closed (document : Address)
  deriving DecidableEq, Repr

def Notice.document : Notice → Address
  | .opened a .. | .changed a .. | .closed a => a

structure Link where
  cell : Address
  predecessor : Option String
  deriving DecidableEq, Repr

/-- A registration in progress: it may fail, and what it did so far stays. -/
abbrev Act := EStateM Fault Hub

namespace Act

def jot (n : Note) : Act Unit := modify (Hub.note · n)

def lift {α : Type} : Except Uri.Error α → Act α
  | .ok a => pure a
  | .error e => throw (.uri e)

def keyOf (uri : String) : Act Key := lift (Uri.key uri)

def resolve (uri : String) : Act Address := lift (Address.of uri)

def on {α : Type} (a : Act α) (h : Hub) : Hub × Except Fault α :=
  match a.run h with
  | .ok r h => (h, .ok r)
  | .error e h => (h, .error e)

end Act

namespace Hub

open Act

/-- A cell's document is in cell mode even when it is opened as a plain file. -/
def modeFor (uri : String) : Mode → Act Mode
  | .cell => pure .cell
  | .file => do return if ← lift (Uri.isCell uri) then .cell else .file

/-- A configured language stands in for the one the editor gives its cells. -/
def languageFor (settings : Settings) (mode : Mode) (given : Language) : Language :=
  if mode = .cell && settings.cellLanguage ≠ "" then .named settings.cellLanguage else given

def enterDocument (item : TextItem) (mode : Mode) (predecessor : Option String) : Act Document := do
  let address ← resolve item.uri
  let h ← get
  if (h.documents.get? address.key).isSome then jot (.documentOpenedAgain item.uri)
  let (documents, d) := h.documents.enter
    { address, language := item.language, version := item.version, text := item.text, mode,
      predecessor }
  modify ({ · with documents })
  return d

def registerOpen (item : TextItem) (mode : Mode) (predecessor : Option String) : Act Notice := do
  let mode ← modeFor item.uri mode
  let language := languageFor (← get).settings mode item.language
  jot (.openDocument item.uri mode predecessor)
  let d ← enterDocument { item with language } mode predecessor
  return .opened d.address d.life item.version item.text mode predecessor

def updateDocument (change : ContentChange) : Act (Option (Document × List Edit)) := do
  let key ← keyOf change.uri
  let h ← get
  let (documents, settled) := h.documents.update key change.edits change.version
  match documents.get? key with
  | none =>
    jot (.changeOfClosedDocument change.uri)
    return none
  | some d =>
    modify ({ · with documents })
    return some (d, settled)

def registerChange (change : ContentChange) (mode : Mode) : Act (Option Notice) := do
  match ← updateDocument change with
  | none => return none
  | some (d, settled) =>
    jot (.changeDocument change.uri change.version mode)
    return some (.changed d.address d.life settled change.version)

def registerClose (uri : String) : Act Notice := do
  jot (.closeDocument uri)
  let address ← resolve uri
  modify fun h => { h with documents := h.documents.close address.key }
  return .closed address

/-- Opens documents in order, each linked to the document that `predecessor` gives for it. -/
def registerOpens (items : List TextItem) (predecessor : TextItem → Option String) :
    Act (List Notice) :=
  items.mapM fun item => registerOpen item .cell (predecessor item)

def registerOpensInOrder (previous : Option String) : List TextItem → Act (List Notice)
  | [] => return []
  | item :: items => do
    let notice ← registerOpen item .cell previous
    return notice :: (← registerOpensInOrder (some item.uri) items)

def registerCloses (uris : List String) : Act (List Notice) := uris.mapM registerClose

def registerContent (changes : List ContentChange) : Act (List Notice) := do
  return (← changes.mapM (registerChange · .cell)).reduceOption

def linkCells : List (String × Option String) → Act (List Link)
  | [] => return []
  | (document, predecessor) :: rest => do
    let cell ← resolve document
    modify fun h => { h with documents := h.documents.link cell.key predecessor }
    return ⟨cell, predecessor⟩ :: (← linkCells rest)

/-- Links the cells of a notebook and gives the links to publish. There are none when the notebook
is not open, the token is stale or a document is listed twice. -/
def stage (uri : String) (token : Token) : Act (Option (List Link)) := do
  let key ← keyOf uri
  let h ← get
  match h.store.get? key with
  | none => return none
  | some notebook =>
    if !h.passes.isCurrent token then return none
    else if hasDuplicates notebook.documents then
      jot (.duplicateCells uri)
      return none
    else return some (← linkCells (chainLinks notebook.documents))

def reindex (key : Key) : Act Unit := do
  let (store, result) := (← get).store.reindex key
  modify ({ · with store })
  lift result

def metadataOf (v : Json) : Act Metadata :=
  match Metadata.ofJson v with
  | .ok m => pure m
  | .error e => throw (.metadata e)

def openInStore (item : NotebookItem) : Act Unit := do
  let key ← keyOf item.uri
  if ((← get).store.get? key).isSome then
    jot (.notebookOpenedAgain item.uri)
    modify fun h => { h with store := h.store.unindex key }
  let metadata ← item.metadata.mapM metadataOf
  let notebook : Notebook := { item with metadata }
  modify fun h =>
    { h with store := { h.store with notebooks := h.store.notebooks.insert key notebook } }
  reindex key

def ownerOf (h : Hub) (cell : String) : Except Uri.Error (Option Notebook) :=
  (Uri.key cell).map h.store.ownerOf?

def requireNotebook (uri method : String) : Act (Key × Notebook) := do
  let key ← keyOf uri
  match (← get).store.get? key with
  | none => throw (.notOpen uri method)
  | some notebook => return (key, notebook)

def applyVersion (key : Key) (version : Int) (metadata : Option Json) : Act Unit := do
  modify fun h => { h with store := h.store.modify key ({ · with version }) }
  match metadata with
  | none => pure ()
  | some v =>
    let table ← metadataOf v
    modify fun h => { h with store := h.store.modify key ({ · with metadata := some table }) }

def updateNotebook (uri : String) (version : Json) (metadata : Option Json) : Act Unit := do
  let (key, _) ← requireNotebook uri "applyVersionAndMetadata"
  match Version.read .notebook version with
  | .ok n => applyVersion key n metadata
  | .error e => throw (.version e)

structure StructuralUpdate where
  notebook : String
  token : Option Token
  notices : List Notice
  links : Option (List Link)

/-- Splices the cell list of an open notebook, opens and closes documents, and stages a pass when a
token calls for one. -/
def applyStructure (key : Key) (notebook : Notebook) (change : StructureChange)
    (token : Option Token) : Act StructuralUpdate := do
  let (cells, removed) := splice notebook.cells change.start change.deleteCount change.inserted
  modify fun h => { h with store := h.store.modify key ({ · with cells }) }
  reindex key
  jot (.spliced notebook.uri removed.length change.inserted.length change.start)
  let opened ← registerOpens change.opened fun item =>
    predecessorOf (cells.map Cell.document) item.uri
  let closed ← registerCloses change.closed
  let links ← match token with
    | some t => stage notebook.uri t
    | none => pure none
  return ⟨notebook.uri, token, opened ++ closed, links⟩

/-- Puts cell data in place; what no cell takes is only noted. -/
def applyData (key : Key) (updates : List Cell) : Act Unit := do
  let h ← get
  match h.store.get? key with
  | none => pure ()
  | some notebook =>
    let (cells, unmatched) := applyCellData notebook.cells updates
    modify fun h => { h with store := h.store.modify key ({ · with cells }) }
    if !unmatched.isEmpty then
      jot (.unmatchedData notebook.uri (unmatched.map Cell.document) h.settings.reportUnmatched)

end Hub
end NotebookHub
