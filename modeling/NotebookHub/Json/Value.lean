import NotebookHub.Double
import NotebookHub.Text.Points

namespace NotebookHub

/-- A JSON value. An object keeps its members in the order in which their names first came. -/
inductive Json (T : Type := String)
  | null
  | bool (b : Bool)
  | int (n : Int)
  | real (x : Double)
  | str (s : T)
  | arr (items : List (Json T))
  | obj (members : List (T × Json T))
  deriving Repr, Inhabited

namespace Json

variable {T : Type}

def member? [DecidableEq T] (members : List (T × Json T)) (name : T) : Option (Json T) :=
  (members.find? (·.1 = name)).map Prod.snd

/-- A name that is there keeps its place. -/
def setMember [DecidableEq T] (members : List (T × Json T)) (name : T) (v : Json T) :
    List (T × Json T) :=
  match members with
  | [] => [(name, v)]
  | m :: ms => if m.1 = name then (name, v) :: ms else m :: setMember ms name v

def fields? : Json T → Option (List (T × Json T))
  | .obj ms => some ms
  | _ => none

def items? : Json T → Option (List (Json T))
  | .arr vs => some vs
  | _ => none

def string? : Json T → Option T
  | .str s => some s
  | _ => none

def int? : Json T → Option Int
  | .int n => some n
  | _ => none

def bool? : Json T → Option Bool
  | .bool b => some b
  | _ => none

def parts? : Json → Option (List Json)
  | .arr vs => some vs
  | .obj ms => some (ms.map fun m => .str m.1)
  | .str s => some (s.toList.map fun c => .str (String.ofList [c]))
  | _ => none

def orNull {α : Type} (f : α → Json T) : Option α → Json T
  | none => .null
  | some a => f a

def present? [DecidableEq T] (members : List (T × Json T)) (name : T) : Option (Json T) :=
  match member? members name with
  | some .null => none
  | v => v

mutual

/-- The value with strings for texts. Of members whose names become one the last counts. -/
def plain : Json Points → Json
  | .null => .null
  | .bool b => .bool b
  | .int n => .int n
  | .real x => .real x
  | .str s => .str s
  | .arr vs => .arr (plainItems vs)
  | .obj ms => .obj (plainMembers [] ms)

def plainItems : List (Json Points) → List Json
  | [] => []
  | v :: vs => plain v :: plainItems vs

def plainMembers (done : List (String × Json)) : List (Points × Json Points) → List (String × Json)
  | [] => done
  | (name, v) :: ms => plainMembers (setMember done name (plain v)) ms

end

instance : Coe (Json Points) Json := ⟨plain⟩

instance : Coe (List (Points × Json Points)) (List (String × Json)) := ⟨plainMembers []⟩

end Json
end NotebookHub
