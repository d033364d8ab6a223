import NotebookHub.Hub.Delivery

namespace NotebookHub

inductive LockKey
  | notebook (k : Key)
  | document (k : Key)
  deriving DecidableEq, Repr

structure Ticket where
  lock : LockKey
  token : Option Token
  deriving DecidableEq, Repr

namespace Hub

open Act

def supersede (uri : String) : Act (Key × Token) := do
  let key ← keyOf uri
  let (passes, token) := (← get).passes.supersede key
  modify ({ · with passes })
  return (key, token)

def forget (uri : String) : Act Key := do
  let key ← keyOf uri
  modify fun h => { h with passes := h.passes.forget key }
  return key

/-- A cell's document is worked on under its notebook's lock. -/
def lockFor (h : Hub) (document : Key) : LockKey :=
  match h.store.owners.get? document with
  | some owner => if (h.store.get? owner).isSome then .notebook owner else .document document
  | none => .document document

def takeTicket : Notification → Act Ticket
  | .openNotebook notebook _ => do
    let (key, token) ← supersede notebook.uri
    return ⟨.notebook key, some token⟩
  | .changeNotebook uri _ change =>
    if change.structural.isSome then do
      let (key, token) ← supersede uri
      return ⟨.notebook key, some token⟩
    else return ⟨.notebook (← keyOf uri), none⟩
  | .saveNotebook uri => return ⟨.notebook (← keyOf uri), none⟩
  | .closeNotebook uri _ => return ⟨.notebook (← forget uri), none⟩
  | .openDocument item => do return ⟨(← get).lockFor (← keyOf item.uri), none⟩
  | .changeDocument change => do return ⟨(← get).lockFor (← keyOf change.uri), none⟩
  | .closeDocument uri => do return ⟨(← get).lockFor (← keyOf uri), none⟩

def passErrand (notebook : String) (token : Token) : Option (List Link) → List Errand
  | some links => [.publish ⟨notebook, token, links, links.length⟩]
  | none => []

/-- Stages the pass that the settings may ask for when a notebook is opened. -/
def stageOnOpen (uri : String) (token : Option Token) : Act (List Errand) := do
  match token with
  | none => return []
  | some t =>
    if (← get).settings.rechainOnOpen then return passErrand uri t (← stage uri t) else return []

def beginOpen (notebook : NotebookItem) (items : List TextItem) (token : Option Token) :
    Act (List Errand) := do
  jot (.openNotebook notebook.uri notebook.cells.length notebook.version)
  openInStore notebook
  let notices ← registerOpensInOrder none items
  let pass ← stageOnOpen notebook.uri token
  return notices.map .notice ++ pass

def StructuralUpdate.errands (u : StructuralUpdate) : List Errand :=
  u.notices.map .notice ++
    match u.token with
    | some t => passErrand u.notebook t u.links
    | none => []

def changeStructure (key : Key) (notebook : Notebook) (structural : Option StructureChange)
    (token : Option Token) : Act (List Errand) := do
  match structural with
  | none => return []
  | some s => return (← applyStructure key notebook s token).errands

def changeCells (key : Key) (change : NotebookChange) : Act (List Notice) := do
  match change.data with
  | none => pure ()
  | some updates => applyData key updates
  registerContent (change.content.getD [])

/-- The parts of a change apply in a fixed order: version and metadata, structure, data, text. -/
def beginChange (uri : String) (version : Int) (change : NotebookChange) (token : Option Token) :
    Act (List Errand) := do
  jot (.changeNotebook uri version)
  let key ← keyOf uri
  match (← get).store.get? key with
  | none =>
    jot (.changeOfClosedNotebook uri)
    return []
  | some notebook =>
    applyVersion key version change.metadata
    let errands ← changeStructure key notebook change.structural token
    let edits ← changeCells key change
    return errands ++ edits.map .notice

def beginClose (uri : String) (cells : List String) : Act (List Errand) := do
  let key ← keyOf uri
  match (← get).store.get? key with
  | none =>
    jot (.closeOfUnknownNotebook uri)
    return []
  | some _ =>
    modify fun h => { h with store := h.store.close key }
    jot (.closeNotebook uri)
    return (← registerCloses cells).map .notice

def begin (n : Notification) (token : Option Token) : Act (List Errand) := do
  match n with
  | .openNotebook notebook items => beginOpen notebook items token
  | .changeNotebook uri version change => beginChange uri version change token
  | .saveNotebook uri =>
    jot (.saveNotebook uri)
    return []
  | .closeNotebook uri cells => beginClose uri cells
  | .openDocument item =>
    match (← get).route with
    | .registry => return [.notice (← registerOpen item .file none)]
    | .recorder =>
      modify (·.call (.recordedOpen item.uri))
      return []
  | .changeDocument change =>
    match (← get).route with
    | .registry => return (← registerChange change .file).toList.map .notice
    | .recorder =>
      modify (·.call (.recordedChange change.uri change.version change.edits))
      return []
  | .closeDocument uri =>
    match (← get).route with
    | .registry => return [.notice (← registerClose uri)]
    | .recorder =>
      modify (·.call (.recordedClose uri))
      return []

/-- What a handler does last, however it went: the change of a notebook that is not open leaves no
token behind. -/
def conclude (h : Hub) (n : Notification) (lock : LockKey) : Hub :=
  match n, lock with
  | .changeNotebook .., .notebook key =>
    if (h.store.get? key).isSome then h else { h with passes := h.passes.forget key }
  | _, _ => h

/-- Handles a notification from arrival to its last errand. A save is only written down, and needs
no key. -/
def handle (h : Hub) (n : Notification) : Hub × Option Fault :=
  match n with
  | .saveNotebook uri => (h.note (.saveNotebook uri), none)
  | n =>
    match (takeTicket n).on h with
    | (h, .error e) => (h, some e)
    | (h, .ok ticket) =>
      match (begin n ticket.token).on h with
      | (h, .error e) => (h.conclude n ticket.lock, some e)
      | (h, .ok errands) => ((h.deliverAll errands).conclude n ticket.lock, none)

end Hub
end NotebookHub
