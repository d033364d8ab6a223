import NotebookHub.Path
import NotebookHub.Table
import NotebookHub.Text.Numeral

namespace NotebookHub

structure SettingsSource where
  root : Path
  file : Option Path
  deriving DecidableEq, Repr

inductive Channel
  | streams
  | tcp (host : String) (port : Int)
  deriving DecidableEq, Repr

inductive Command
  | serve (source : SettingsSource) (logLevel : Option String) (channel : Channel)
  | replay (events : Path) (source : SettingsSource) (logLevel : Option String)
      (output : Option Path)
  | showConfig (source : SettingsSource)
  deriving DecidableEq, Repr

namespace CommandLine

inductive Arity
  | flag
  | value
  deriving DecidableEq, Repr

structure Parsed where
  options : Table String String := .empty
  operands : List String := []

/-- Two dashes and a lone dash are no options. -/
def isOption (arg : String) : Bool := arg.startsWith "-" && arg ≠ "-" && arg ≠ "--"

def splitOption (arg : String) : String × Option String :=
  let name := arg.toList.takeWhile (· ≠ '=')
  match arg.toList.dropWhile (· ≠ '=') with
  | [] => (arg, none)
  | _ :: v => (String.ofList name, some (String.ofList v))

/-- Takes arguments apart, by the options that there are. An option without a value takes the next
argument, whatever it looks like. -/
def parse (arity : String → Option Arity) (p : Parsed) : List String → Option Parsed
  | [] => some p
  | arg :: rest =>
    if arg = "--" then some { p with operands := p.operands ++ rest }
    else if isOption arg then
      let (name, explicit) := splitOption arg
      let set (v : String) : Parsed := { p with options := p.options.insert name v }
      match arity name, explicit, rest with
      | some .flag, none, rest => parse arity (set "") rest
      | some .value, some v, rest => parse arity (set v) rest
      | some .value, none, v :: rest => parse arity (set v) rest
      | _, _, _ => none
    else parse arity { p with operands := p.operands ++ [arg] } rest

def path? (s : String) : Option Path :=
  let p := Path.ofChars s.toList
  if p.hasNull then none else some p

namespace Parsed

def path? (p : Parsed) (name : String) : Option (Option Path) :=
  (p.options.get? name).mapM CommandLine.path?

def source? (p : Parsed) : Option SettingsSource := do
  return ⟨(← p.path? "--root").getD ⟨.relative, []⟩, ← p.path? "--config"⟩

def logLevel (p : Parsed) : Option String := p.options.get? "--log-level"

/-- The port is read even when it is not used. -/
def channel? (p : Parsed) : Option Channel := do
  let port ← match p.options.get? "--port" with
    | some s => Text.numeral? s
    | none => some 2087
  let host := (p.options.get? "--host").getD "127.0.0.1"
  return if p.options.contains "--tcp" then .tcp host port else .streams

end Parsed

def arities (values flags : List String) (name : String) : Option Arity :=
  if name ∈ values then some .value else if name ∈ flags then some .flag else none

def serve? (args : List String) : Option Command := do
  let p ← parse
    (arities ["--root", "--config", "--log-level", "--host", "--port"] ["--tcp"]) {} args
  guard p.operands.isEmpty
  return .serve (← p.source?) p.logLevel (← p.channel?)

def replay? (args : List String) : Option Command := do
  let p ← parse (arities ["--root", "--config", "--log-level", "--output"] []) {} args
  match p.operands with
  | [events] =>
    return .replay (← path? events) (← p.source?) p.logLevel (← p.path? "--output")
  | _ => none

def showConfig? (args : List String) : Option Command := do
  let p ← parse (arities ["--root", "--config"] []) {} args
  guard p.operands.isEmpty
  return .showConfig (← p.source?)

def named? (name : String) (args : List String) : Option Command :=
  match name with
  | "serve" => serve? args
  | "replay" => replay? args
  | "show-config" => showConfig? args
  | _ => none

end CommandLine

def Command.ofArguments? : List String → Option Command
  | "--" :: name :: args => CommandLine.named? name args
  | name :: args => CommandLine.named? name args
  | [] => none

end NotebookHub
