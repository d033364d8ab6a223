import NotebookHub.Workspace.File

namespace NotebookHub

structure Roster where
  members : Table String Workspace := .empty
  fallback : Option Workspace := none

namespace Roster

def fallbackName : String := "<default>"

def start (withFallback : Bool) : Roster :=
  { fallback := if withFallback then some ⟨fallbackName, none, .empty⟩ else none }

def all (r : Roster) : List Workspace := r.members.values ++ r.fallback.toList

/-- A workspace of a name that is taken replaces the other and takes its place. -/
def add (r : Roster) (w : Workspace) : Roster :=
  { r with members := r.members.insert w.name w }

/-- The workspace of a folder, named after it unless another name is given. -/
def folder (root : Path) (name : Option String) : Workspace :=
  { name := match name with
      | none | some "" => root.text
      | some n => n
    root := some root }

/-- Takes out the first workspace at `root`. -/
def removeFolder (r : Roster) (root : Path) : Roster × Option Workspace :=
  match r.members.values.find? fun w => w.root = some root with
  | some w => ({ r with members := r.members.erase w.name }, some w)
  | none => (r, none)

def hasOwner (r : Roster) (p : Path) : Bool := r.members.values.any (·.contains p)

def owners (r : Roster) (p : Path) : List Workspace :=
  if r.hasOwner p then r.members.values.filter (·.contains p) else r.fallback.toList

/-- A message on its round, and what each workspace that got it was told and did. -/
structure Round where
  message : Message
  told : List (String × Message × Receipt) := []

/-- Hands the message to one workspace; the next one gets it as this one has left it. -/
def Round.pass (r : Round) (w : Workspace) : Round × Workspace :=
  let (w', receipt) := w.receive r.message
  (⟨receipt.message, r.told ++ [(w.name, r.message, receipt)]⟩, w')

def deliver (r : Roster) (m : Message) : Round × Roster :=
  let p := m.document.path
  if r.hasOwner p then
    let (round, members) :=
      r.members.visit (fun round w => if w.contains p then round.pass w else (round, w)) ⟨m, []⟩
    (round, { r with members })
  else
    match r.fallback with
    | some w =>
      let (round, w) := (⟨m, []⟩ : Round).pass w
      (round, { r with fallback := some w })
    | none => (⟨m, []⟩, r)

def tell (r : Roster) (name : String) (m : Message) : Round × Roster :=
  match r.members.get? name with
  | some w =>
    let (round, w) := (⟨m, []⟩ : Round).pass w
    (round, { r with members := r.members.insert name w })
  | none =>
    match r.fallback with
    | some w =>
      if w.name = name then
        let (round, w) := (⟨m, []⟩ : Round).pass w
        (round, { r with fallback := some w })
      else (⟨m, []⟩, r)
    | none => (⟨m, []⟩, r)

def find? (r : Roster) (name : String) : Option Workspace :=
  r.all.find? (·.name = name)

end Roster
end NotebookHub
