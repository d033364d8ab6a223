import NotebookHub.CommandLine.Arguments
import NotebookHub.Hub.ReportJson
import NotebookHub.Json.Writer
import NotebookHub.Settings.AsJson
import NotebookHub.Settings.File

namespace NotebookHub

/-- What a command needs from where it runs. The readers of files may nest their calls as deep as
there is room for. -/
structure Host (m : Type → Type) where
  read : Path → m (Except FileFault (List Nat))
  write : Path → List Nat → m (Except FileFault Unit)
  input : m (List Nat)
  room : Nat := usualRoom

inductive Breakdown
  | file (f : FileFault)
  /-- Octets that are not UTF-8. -/
  | malformedText
  | excess (e : ReadError)
  | fault (f : Fault)
  deriving DecidableEq, Repr

/-- What makes a command refuse to run. -/
inductive Refusal
  | arguments
  | logLevel (e : UnknownLogLevel)
  | events (file : String) (e : Recording.BadLine)
  deriving DecidableEq, Repr

def Breakdown.ofSettings : Settings.Refused → Breakdown
  | .name => .file .badName
  | .notUtf8 => .malformedText
  | .excess e => .excess e

inductive Ending
  | done
  /-- Some events were passed over. -/
  | withErrors (errors : List PassedOver)
  | refused (why : Refusal)
  | broken (why : Breakdown)
  deriving DecidableEq, Repr

def Ending.exitCode : Ending → Nat
  | .done => 0
  | .withErrors _ | .broken _ => 1
  | .refused _ => 2

structure Outcome where
  ending : Ending := .done
  printed : String := ""
  /-- The rank from which messages are logged, once the command has set it. -/
  logRank : Option Nat := none
  /-- Where the hub is to be reached from now on. -/
  serving : Option (Channel × Settings) := none

namespace Command

variable {m : Type → Type} [Monad m]

def settings (host : Host m) (source : SettingsSource) (logLevel : Option String) :
    ExceptT Ending m Settings := do
  let file ← host.read (Settings.filePath source.root source.file)
  let level : Settings.Section := .ofList (logLevel.toList.map fun s => ("level", .text s))
  match Settings.load file { logging := level } host.room with
  | .error e => throw (.broken (.ofSettings e))
  | .ok s => return s

def ranked (host : Host m) (source : SettingsSource) (logLevel : Option String) :
    ExceptT Ending m (Settings × Nat) := do
  let s ← settings host source logLevel
  match logRank s.logLevel with
  | .error e => throw (.refused (.logLevel e))
  | .ok rank => return (s, rank)

/-- The events of a recording; a lone dash stands for standard input. -/
def events (host : Host m) (file : Path) : ExceptT Ending m (List Recording.Event) := do
  let octets ←
    if file.text = "-" then host.input
    else
      match ← host.read file with
      | .error f => throw (.broken (.file f))
      | .ok octets => pure octets
  match Utf8.decode? octets with
  | none => throw (.broken .malformedText)
  | some text =>
    match Recording.read text host.room with
    | .ok es => return es.map Recording.Event.plain
    | .error e =>
      match e.excess? with
      | some excess => throw (.broken (.excess excess))
      | none => throw (.refused (.events file.text e))

def replayFile (host : Host m) (file : Path) (s : Settings) (output : Option Path) :
    ExceptT Ending m (String × List PassedOver) := do
  let es ← events host file
  match ((Hub.start s).replay es).2 with
  | .error f => throw (.broken (.fault f))
  | .ok report =>
    let text := report.toJson.indented 0 ++ "\n"
    match output with
    | none => return (text, report.errors)
    | some p =>
      match ← host.write p (Utf8.encode text.toList) with
      | .error f => throw (.broken (.file f))
      | .ok () => return ("", report.errors)

def run (host : Host m) : Command → m Outcome
  | .showConfig source => do
    match ← (settings host source none).run with
    | .error ending => return { ending }
    | .ok s => return { printed := s.toJson.indented 0 ++ "\n" }
  | .serve source logLevel channel => do
    match ← (ranked host source logLevel).run with
    | .error ending => return { ending }
    | .ok (s, rank) => return { logRank := some rank, serving := some (channel, s) }
  | .replay file source logLevel output => do
    match ← (ranked host source logLevel).run with
    | .error ending => return { ending }
    | .ok (s, rank) =>
      match ← (replayFile host file s output).run with
      | .error ending => return { ending, logRank := some rank }
      | .ok (printed, errors) =>
        let ending := if errors.isEmpty then .done else .withErrors errors
        return { ending, printed, logRank := some rank }

def runArguments (host : Host m) (args : List String) : m Outcome :=
  match ofArguments? args with
  | none => return { ending := .refused .arguments }
  | some c => c.run host

end Command

def Disk.host (input : List Nat) : Host (StateM Disk) where
  read p := return (← get).read p
  write p octets := do
    match (← get).write p octets with
    | .error f => return .error f
    | .ok d =>
      set d
      return .ok ()
  input := return input

end NotebookHub
