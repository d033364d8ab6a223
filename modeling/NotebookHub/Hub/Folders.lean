import NotebookHub.Hub.State

namespace NotebookHub

structure Folder where
  uri : String
  name : Option String
  deriving DecidableEq, Repr

namespace Hub

def addFolder (h : Hub) (f : Folder) : Hub × Except Uri.Error String :=
  match Uri.path f.uri with
  | .error e => (h, .error e)
  | .ok root =>
    let w := Roster.folder root f.name
    ({ h with roster := h.roster.add w }.note (.workspaceAdded w.name root.text), .ok w.name)

def removeFolder (h : Hub) (uri : String) : Hub × Except Uri.Error (Option String) :=
  match Uri.path uri with
  | .error e => (h, .error e)
  | .ok root =>
    let (roster, removed) := h.roster.removeFolder root
    ({ h with roster }, .ok (removed.map Workspace.name))

/-- Adds folders up to the first whose URI cannot be read. -/
def addFolders (h : Hub) : List Folder → Hub × Except Uri.Error Unit
  | [] => (h, .ok ())
  | f :: fs =>
    match h.addFolder f with
    | (h, .ok _) => h.addFolders fs
    | (h, .error e) => (h, .error e)

def removeFolders (h : Hub) : List String → Hub × Except Uri.Error Unit
  | [] => (h, .ok ())
  | uri :: uris =>
    match h.removeFolder uri with
    | (h, .ok _) => h.removeFolders uris
    | (h, .error e) => (h, .error e)

/-- Folders that went are removed before those that came are added. -/
def changeFolders (h : Hub) (removed : List String) (added : List Folder) :
    Hub × Except Uri.Error Unit :=
  match h.removeFolders removed with
  | (h, .ok ()) => h.addFolders added
  | (h, .error e) => (h, .error e)

/-- The folders that the editor starts with, one for each URI, or its root folder when it names
none. -/
def adoptFolders (h : Hub) (folders : List Folder) (rootUri : Option String) :
    Hub × Except Uri.Error Unit :=
  let folders := (Table.ofList (folders.map fun f => (f.uri, f))).values
  let h := h.note (.initialized folders.length)
  match folders, rootUri with
  | [], some uri => if uri = "" then (h, .ok ()) else h.addFolders [⟨uri, none⟩]
  | folders, _ => h.addFolders folders

end Hub
end NotebookHub
