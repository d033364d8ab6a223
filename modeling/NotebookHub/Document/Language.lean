import NotebookHub.Json.Literal

namespace NotebookHub

inductive Language
  | named (text : String)
  | unnamed
  /-- A number or a truth value, kept by its text. -/
  | coded (text : String)
  deriving DecidableEq, Repr

namespace Language

def ofJson? : Json → Option Language
  | .str s => some (.named s)
  | .null => some .unnamed
  | .arr _ | .obj _ => none
  | v => some (.coded v.asText)

def text : Language → String
  | .named t | .coded t => t
  | .unnamed => Json.null.asText

def reported? : Language → Option (Option String)
  | .named t => some (some t)
  | .unnamed => some none
  | .coded _ => none

end Language
end NotebookHub
