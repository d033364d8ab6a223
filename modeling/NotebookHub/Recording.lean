import NotebookHub.Json.Reader
import NotebookHub.Text.Blank
import NotebookHub.Text.Line

namespace NotebookHub.Recording

structure Event (T : Type := String) where
  method : T
  params : List (T × Json T)
  deriving Repr

def Event.plain (e : Event Points) : Event := ⟨e.method, e.params⟩

inductive LineFault
  | unreadable (e : ReadError)
  | notEvent
  deriving DecidableEq, Repr

structure BadLine where
  line : Nat
  fault : LineFault
  deriving DecidableEq, Repr

/-- A line that goes beyond a limit is more than a bad line. -/
def BadLine.excess? (e : BadLine) : Option ReadError :=
  match e.fault with
  | .unreadable .malformed | .notEvent => none
  | .unreadable e => some e

def BadLine.message (e : BadLine) (file : String) : String :=
  file ++ ":" ++ toString e.line ++ ": invalid event"

/-- Members other than the two do not matter. -/
def Event.ofJson? {T : Type} [DecidableEq T] [TextLike T] (v : Json T) : Option (Event T) := do
  let ms ← v.fields?
  let part (name : String) : Option (Json T) := Json.member? ms (TextLike.ofString name)
  return ⟨← (← part "method").string?, ← (← part "params").fields?⟩

def Event.ofLine (room : Nat) (line : List Char) : Except LineFault (Event Points) :=
  match Json.read line room with
  | .error e => .error (.unreadable e)
  | .ok v =>
    match ofJson? v with
    | none => .error .notEvent
    | some e => .ok e

def readLines (room n : Nat) : List (List Char) → Except BadLine (List (Event Points))
  | [] => .ok []
  | line :: lines =>
    if line.all Text.isBlank then readLines room (n + 1) lines
    else
      match Event.ofLine room (Text.withoutBreak line) with
      | .error fault => .error ⟨n, fault⟩
      | .ok e => (readLines room (n + 1) lines).map (e :: ·)

def read (text : List Char) (room : Nat := usualRoom) :
    Except BadLine (List (Event Points)) :=
  readLines room 1 (Text.lines (Text.foldReturns text))

end NotebookHub.Recording
