import NotebookHub.Toml.Value

namespace NotebookHub.Toml

/-- What stands under a name: a value that is complete, a table, or a series of tables, of which the
last is in the making and the others are kept newest first. -/
inductive Node
  | value (v : Toml)
  | table (definedIn : Option Nat) (members : List (String × Node))
  | series (done : List Toml) (members : List (String × Node))
  deriving Inhabited

structure DottedKey where
  through : List String
  name : String
  deriving DecidableEq, Repr

namespace Node

def find? (ms : List (String × Node)) (name : String) : Option Node :=
  (ms.find? (·.1 = name)).map Prod.snd

/-- Puts a node under a name; one that is there keeps its place. -/
def put (ms : List (String × Node)) (name : String) (node : Node) : List (String × Node) :=
  match ms with
  | [] => [(name, node)]
  | m :: ms => if m.1 = name then (name, node) :: ms else m :: put ms name node

mutual

def toToml : Node → Toml
  | .value v => v
  | .table _ ms => .table (toMembers ms)
  | .series done ms => .array (.table (toMembers ms) :: done).reverse

def toMembers : List (String × Node) → List (String × Toml)
  | [] => []
  | (name, node) :: ms => (name, node.toToml) :: toMembers ms

end

/-- Works in the table at a path of names, or in the last table of a series. Tables that are missing
on the way are made, and defined by nothing yet. -/
def within (act : List (String × Node) → Option (List (String × Node))) :
    List String → List (String × Node) → Option (List (String × Node))
  | [], ms => act ms
  | n :: ns, ms =>
    match find? ms n with
    | none => (within act ns []).map fun inner => put ms n (.table none inner)
    | some (.table d inner) => (within act ns inner).map fun inner => put ms n (.table d inner)
    | some (.series done inner) =>
      (within act ns inner).map fun inner => put ms n (.series done inner)
    | some (.value _) => none

def define (part : Nat) (name : String) (ms : List (String × Node)) :
    Option (List (String × Node)) :=
  match find? ms name with
  | none => some (put ms name (.table (some part) []))
  | some (.table none inner) => some (put ms name (.table (some part) inner))
  | _ => none

def extend (name : String) (ms : List (String × Node)) : Option (List (String × Node)) :=
  match find? ms name with
  | none => some (put ms name (.series [] []))
  | some (.series done inner) => some (put ms name (.series (.table (toMembers inner) :: done) []))
  | _ => none

/-- Gives a value to a new name in a table that the dotted keys of this part may add to. -/
def assign (part : Nat) (name : String) (v : Toml) :
    List String → List (String × Node) → Option (List (String × Node))
  | [], ms => if (find? ms name).isSome then none else some (put ms name (.value v))
  | n :: ns, ms =>
    match find? ms n with
    | none =>
      (assign part name v ns []).map fun inner => put ms n (.table (some part) inner)
    | some (.table d inner) =>
      if d = none || d = some part then
        (assign part name v ns inner).map fun inner => put ms n (.table (some part) inner)
      else none
    | _ => none

end Node

/-- A document in the making: its tables, and the table and number of the part being read. -/
structure Draft where
  members : List (String × Node) := []
  header : List String := []
  part : Nat := 0

namespace Draft

def openTable (d : Draft) (k : DottedKey) : Option Draft :=
  (Node.within (Node.define (d.part + 1) k.name) k.through d.members).map fun ms =>
    ⟨ms, k.through ++ [k.name], d.part + 1⟩

def openNext (d : Draft) (k : DottedKey) : Option Draft :=
  (Node.within (Node.extend k.name) k.through d.members).map fun ms =>
    ⟨ms, k.through ++ [k.name], d.part + 1⟩

def assign (d : Draft) (k : DottedKey) (v : Toml) : Option Draft :=
  (Node.within (Node.assign d.part k.name v k.through) d.header d.members).map fun ms =>
    { d with members := ms }

def finished (d : Draft) : List (String × Toml) := Node.toMembers d.members

end Draft
end NotebookHub.Toml
