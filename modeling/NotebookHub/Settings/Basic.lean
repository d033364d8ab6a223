import NotebookHub.Text.Blank
import NotebookHub.Text.UpperCase
import NotebookHub.Table

namespace NotebookHub

inductive Given
  | nothing
  | flag (b : Bool)
  | whole (n : Int)
  | text (s : String)
  /-- A value of a kind that no setting has. -/
  | other
  deriving DecidableEq, Repr

namespace Given

def lowerAscii (s : String) : String := String.ofList (s.toList.map Char.toLower)

/-- A text counts as set when it says so; a value of another kind leaves the default. -/
def asFlag (default : Bool) : Given → Bool
  | .flag b => b
  | .whole n => n ≠ 0
  | .text s => ["1", "true", "yes", "on"].contains (lowerAscii (Text.trimmed s))
  | .nothing | .other => default

def asText (default : String) : Given → String
  | .text s => if Text.trimmed s = "" then default else Text.trimmed s
  | _ => default

end Given

structure Settings where
  cellLanguage : String := "python"
  notebookType : String := "*"
  reportUnmatched : Bool := true
  rechainOnOpen : Bool := false
  defaultWorkspace : Bool := true
  logLevel : String := "INFO"
  deriving DecidableEq, Repr

namespace Settings

/-- A table of settings; a name that it lacks was given nothing. -/
abbrev Section := Table String Given

def value (t : Section) (name : String) : Given := (t.get? name).getD .nothing

structure Sections where
  notebook : Section := .empty
  workspace : Section := .empty
  logging : Section := .empty

def ofSections (s : Sections) : Settings :=
  let standard : Settings := {}
  { cellLanguage := (value s.notebook "cell_language").asText standard.cellLanguage
    notebookType := (value s.notebook "notebook_type").asText standard.notebookType
    reportUnmatched :=
      (value s.notebook "report_unmatched_cell_data").asFlag standard.reportUnmatched
    rechainOnOpen := (value s.notebook "rechain_on_open").asFlag standard.rechainOnOpen
    defaultWorkspace :=
      (value s.workspace "default_workspace").asFlag standard.defaultWorkspace
    logLevel := Text.upper ((value s.logging "level").asText standard.logLevel) }

/-- Puts entries over defaults: those that say nothing do not count, those for a present name keep
its place. -/
def overlay {α : Type} (isNothing : α → Bool) (given : List (String × α))
    (defaults : Table String α) : Table String α :=
  given.foldl (fun t e => if isNothing e.2 then t else t.insert e.1 e.2) defaults

def Sections.onto (s defaults : Sections) : Sections :=
  let put (a b : Section) : Section := overlay (· = .nothing) a.entries b
  ⟨put s.notebook defaults.notebook, put s.workspace defaults.workspace,
   put s.logging defaults.logging⟩

end Settings

structure UnknownLogLevel where
  given : String
  deriving DecidableEq, Repr

def UnknownLogLevel.message (e : UnknownLogLevel) : String := "unknown log level: " ++ e.given

def logRank (level : String) : Except UnknownLogLevel Nat :=
  match Text.upper (Text.trimmed level) with
  | "NOTSET" => .ok 0
  | "DEBUG" => .ok 10
  | "INFO" => .ok 20
  | "WARN" | "WARNING" => .ok 30
  | "ERROR" => .ok 40
  | "CRITICAL" | "FATAL" => .ok 50
  | _ => .error ⟨level⟩

end NotebookHub
