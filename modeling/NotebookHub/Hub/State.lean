import NotebookHub.Document.Version
import NotebookHub.Journal
import NotebookHub.Notebook.Store
import NotebookHub.Settings.Basic
import NotebookHub.Workspace.Roster

namespace NotebookHub

structure Token where
  notebook : Key
  generation : Nat
  deriving DecidableEq, Repr

/-- The current pass of each notebook. A newer token makes the older ones stale. -/
structure Passes where
  current : Table Key Nat := .empty
  issued : Nat := 0

namespace Passes

def supersede (p : Passes) (notebook : Key) : Passes × Token :=
  (⟨p.current.insert notebook (p.issued + 1), p.issued + 1⟩, ⟨notebook, p.issued + 1⟩)

def isCurrent (p : Passes) (t : Token) : Bool :=
  p.current.get? t.notebook = some t.generation

def forget (p : Passes) (notebook : Key) : Passes :=
  { p with current := p.current.erase notebook }

def reset (p : Passes) : Passes := { p with current := .empty }

end Passes

/-- Where text documents go: into the hub's own registry, or only to a recorder. -/
inductive Route
  | registry
  | recorder
  deriving DecidableEq, Repr

inductive Call
  | told (workspace : String) (message : Message)
  | cleared (workspace : String)
  | recordedOpen (uri : String)
  | recordedChange (uri : String) (version : Int) (edits : List Edit)
  | recordedClose (uri : String)
  deriving DecidableEq, Repr

inductive Fault
  | uri (e : Uri.Error)
  | notOpen (uri method : String)
  | metadata (e : Metadata.Error)
  /-- Metadata with a name that is no text cannot be reported. -/
  | metadataNames (notebook : String)
  /-- A language that is neither a text nor nothing cannot be reported. -/
  | language (document : String)
  | version (e : VersionError)
  deriving DecidableEq, Repr

def notOpenMessage (uri : String) : String := "notebook is not open: " ++ uri

def Fault.message : Fault → String
  | .uri e => e.message
  | .notOpen u _ => notOpenMessage u
  | .metadata e => e.message
  | .metadataNames u => "metadata has a name that is no text: " ++ u
  | .language d => "document has a language that is no text: " ++ d
  | .version e => e.message

structure Hub where
  settings : Settings := {}
  route : Route := .registry
  store : Store := {}
  documents : Registry := {}
  roster : Roster := {}
  passes : Passes := {}
  journal : List Note := []
  calls : List Call := []

namespace Hub

def start (settings : Settings) (route : Route := .registry) : Hub :=
  { settings, route, roster := .start settings.defaultWorkspace }

def note (h : Hub) (n : Note) : Hub := { h with journal := h.journal ++ [n] }

def call (h : Hub) (c : Call) : Hub := { h with calls := h.calls ++ [c] }

def record (h : Hub) (told : List (String × Message × Receipt)) : Hub :=
  told.foldl (fun h (name, message, receipt) =>
    let h := h.call (.told name message)
    if receipt.ignored then
      match message with
      | .changed a .. => h.note (.changeIgnored name a.uri)
      | .linked a _ => h.note (.linkIgnored name a.uri)
      | _ => h
    else h) h

def tellOwners (h : Hub) (m : Message) : Hub × Message :=
  let (round, roster) := h.roster.deliver m
  ({ h with roster }.record round.told, round.message)

def tell (h : Hub) (workspace : String) (m : Message) : Hub :=
  let (round, roster) := h.roster.tell workspace m
  { h with roster }.record round.told

/-- Drops every workspace; no document has an owner afterwards. -/
def clearWorkspaces (h : Hub) : Hub :=
  { h with
    calls := h.calls ++ h.roster.all.map fun w => Call.cleared w.name
    roster := {} }

def shutdown (h : Hub) : Hub :=
  let h := h.note (.shutdown h.store.notebooks.size)
  clearWorkspaces
    { h with passes := h.passes.reset, store := .clear, documents := h.documents.clear }

end Hub
end NotebookHub
