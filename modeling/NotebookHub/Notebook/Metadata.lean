import NotebookHub.Json.Value
import NotebookHub.Table

namespace NotebookHub

/-- What metadata is filed under. A truth value is the same name as the number one or zero. -/
inductive Name
  | text (s : String)
  | number (n : Int)
  | fraction (x : Double)
  | nothing
  deriving DecidableEq, Repr

def Name.isText : Name → Bool
  | .text _ => true
  | _ => false

/-- Each name with its label, which is how it was first written, and its value. -/
structure Metadata where
  entries : Table Name (String × Json) := .empty

namespace Metadata

/-- A name that is there keeps its label. -/
def insert (m : Metadata) (name : Name) (label : String) (v : Json) : Metadata :=
  ⟨m.entries.insert name (((m.entries.get? name).map Prod.fst).getD label, v)⟩

/-- Only texts are names in an object that was given as one. -/
def isPlain (m : Metadata) : Bool := m.entries.keys.all Name.isText

def toJson (m : Metadata) : Json := .obj m.entries.values

inductive Error
  /-- Neither an object nor a list nor a text. -/
  | notEnumerable
  /-- An element that cannot be a pair, or a pair whose first part cannot be a name. -/
  | notPair
  /-- An element at `index` that has `size` parts. -/
  | wrongSize (index size : Nat)
  deriving DecidableEq, Repr

def Error.message : Error → String
  | .notEnumerable => "metadata is no table"
  | .notPair => "metadata element is no pair"
  | .wrongSize index size =>
    s!"dictionary update sequence element #{index} has length {size}; 2 is required"

def name? : Json → Option (Name × String)
  | .str s => some (.text s, s)
  | .int n => some (.number n, toString n)
  | .bool b => some (.number (if b then 1 else 0), if b then "true" else "false")
  | .real x => some ((x.whole?.map Name.number).getD (.fraction x), x.spelled "Infinity" "NaN")
  | .null => some (.nothing, "null")
  | _ => none

def addPairs (index : Nat) (done : Metadata) : List Json → Except Error Metadata
  | [] => .ok done
  | v :: vs =>
    match v.parts? with
    | none => .error .notPair
    | some [a, b] =>
      match name? a with
      | some (name, label) => addPairs (index + 1) (done.insert name label b) vs
      | none => .error .notPair
    | some ps => .error (.wrongSize index ps.length)

def ofMembers (ms : List (String × Json)) : Metadata :=
  ms.foldl (fun done m => done.insert (.text m.1) m.1 m.2) {}

def ofJson : Json → Except Error Metadata
  | .obj ms => .ok (ofMembers ms)
  | v =>
    match v.parts? with
    | some vs => addPairs 0 {} vs
    | none => .error .notEnumerable

end Metadata
end NotebookHub
