import NotebookHub.Text.Line
import NotebookHub.Text.Units

namespace NotebookHub

structure Position where
  line : Nat
  character : Nat
  deriving DecidableEq, Repr

/-- A replacement of the whole text, or of what stands between two positions. -/
inductive Edit
  | whole (text : String)
  | span (start stop : Position) (text : String)
  deriving DecidableEq, Repr

structure Spot where
  line : Nat
  column : Nat
  deriving DecidableEq, Repr

namespace Position

/-- Pulls a position past the end of its line back to the last unit of the line. -/
def settle (lines : List (List Char)) (p : Position) : Position :=
  match lines[p.line]? with
  | none => p
  | some line =>
    let n := Text.length16 (Text.plainEnd line)
    if 0 < n && n < p.character then { p with character := n - 1 } else p

/-- A line past the last one means the end of the last line, in units. -/
def spot (lines : List (List Char)) (p : Position) : Spot :=
  match lines[p.line]? with
  | some line => ⟨p.line, Text.column (Text.plainEnd line) p.character⟩
  | none =>
    match lines.getLast? with
    | some line => ⟨lines.length - 1, Text.length16 line⟩
    | none => ⟨0, 0⟩

end Position

namespace Edit

/-- What becomes of line number `i` when the text from `start` to `stop` is replaced. A range that
ends on an earlier line than it starts leaves every line as it was. -/
def replaceIn (start stop : Spot) (new : List Char) (i : Nat) (line : List Char) : List Char :=
  if i < start.line || stop.line < i then line
  else
    (if i = start.line then line.take start.column ++ new else []) ++
      (if i = stop.line then line.drop stop.column else [])

/-- In a text without lines the new text is all there is. -/
def replace (lines : List (List Char)) (start stop : Spot) (new : List Char) : List Char :=
  if lines.isEmpty then new else (lines.mapIdx (replaceIn start stop new)).flatten

def settle (e : Edit) (text : String) : Edit :=
  match e with
  | .whole new => .whole new
  | .span start stop new =>
    let lines := Text.lines text.toList
    .span (start.settle lines) (stop.settle lines) new

def applySettled (e : Edit) (text : String) : String :=
  match e with
  | .whole new => new
  | .span start stop new =>
    let lines := Text.lines text.toList
    String.ofList (replace lines (start.spot lines) (stop.spot lines) new.toList)

def apply (e : Edit) (text : String) : String := (e.settle text).applySettled text

/-- The text after a batch of edits, and the batch with every position settled on the text that the
edit met. -/
def applyAll : List Edit → String → String × List Edit
  | [], text => (text, [])
  | e :: es, text =>
    let (final, settled) := applyAll es (e.apply text)
    (final, e.settle text :: settled)

end Edit
end NotebookHub
