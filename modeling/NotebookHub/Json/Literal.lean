import NotebookHub.Json.Value
import NotebookHub.Text.Digits
import NotebookHub.Text.Quoted

namespace NotebookHub.Json

mutual

/-- A value as it is spelled within a list or an object, where texts stand in quotes. -/
def spelled : Json → String
  | .null => "None"
  | .bool b => if b then "True" else "False"
  | .int n => toString n
  | .real x => x.spelled "inf" "nan"
  | .str s => Text.quoted s
  | .arr vs => "[" ++ ", ".intercalate (spelledItems vs) ++ "]"
  | .obj ms => "\x7b" ++ ", ".intercalate (spelledMembers ms) ++ "\x7d"

def spelledItems : List Json → List String
  | [] => []
  | v :: vs => spelled v :: spelledItems vs

def spelledMembers : List (String × Json) → List String
  | [] => []
  | (name, v) :: ms => (Text.quoted name ++ ": " ++ spelled v) :: spelledMembers ms

end

/-- A text is itself where text is wanted; any other value is spelled out. -/
def asText : Json → String
  | .str s => s
  | v => spelled v

def asInt? : Json → Option Int
  | .int n => some n
  | .bool b => some (if b then 1 else 0)
  | .real x => x.truncated?
  | .str s => Text.integer? s
  | _ => none

/-- Whether a value counts as true: nothing, zero and what is empty do not. -/
def asBool : Json → Bool
  | .null => false
  | .bool b => b
  | .int n => n ≠ 0
  | .real x => !x.isZero
  | .str s => s ≠ ""
  | .arr vs => !vs.isEmpty
  | .obj ms => !ms.isEmpty

example : asText (.arr [.int 1, .str "a", .null]) = "[1, 'a', None]" := by decide +kernel

end NotebookHub.Json
