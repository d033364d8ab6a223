import NotebookHub.Document.Version
import NotebookHub.Hub.Folders
import NotebookHub.Json.Literal
import NotebookHub.Notification.Basic

namespace NotebookHub

abbrev Fields := List (String × Json)

namespace Fields

def text? (ms : Fields) (name : String) : Option String := (Json.member? ms name).map Json.asText

def bounded? (low : Int) (v : Json) : Option Int :=
  v.asInt?.bind fun n => if low ≤ n ∧ n ≤ Version.greatest then some n else none

def version? (ms : Fields) : Option Int := (Json.member? ms "version").bind (bounded? Version.least)

def nat? (ms : Fields) (name : String) : Option Nat :=
  (Json.member? ms name).bind fun v => (bounded? 0 v).map Int.toNat

def object? (ms : Fields) (name : String) : Option Fields :=
  (Json.member? ms name).bind Json.fields?

/-- A member that may be missing or null, and else has to be readable. -/
def optional? {α : Type} (read : Json → Option α) (ms : Fields) (name : String) :
    Option (Option α) :=
  match Json.present? ms name with
  | none => some none
  | some v => (read v).map some

/-- Whatever has parts counts as a list of them. -/
def listOf? {α : Type} (read : Json → Option α) (v : Json) : Option (List α) :=
  v.parts?.bind (·.mapM read)

def list? {α : Type} (read : Json → Option α) (ms : Fields) (name : String) : Option (List α) :=
  (Json.member? ms name).bind (listOf? read)

def occursIn (s : List Char) : List Char → Bool
  | [] => s.isEmpty
  | c :: cs => s.isPrefixOf (c :: cs) || occursIn s cs

/-- The members of a value none of which has to be there. A list or a text has none of them unless
it holds one of their names. -/
def loose? (names : List String) : Json → Option Fields
  | .obj ms => some ms
  | .arr vs => if vs.any fun v => v.string?.any names.contains then none else some []
  | .str s => if names.any fun n => occursIn n.toList s.toList then none else some []
  | _ => none

end Fields

namespace Notification

open Fields

def kindOf? : Int → Option CellKind
  | 1 => some .markup
  | 2 => some .code
  | _ => none

/-- A kind is a number and never a text. -/
def kind? : Json → Option CellKind
  | .int n => kindOf? n
  | .bool b => if b then some .markup else none
  | .real x => x.whole?.bind kindOf?
  | _ => none

def execution? (v : Json) : Option Execution := do
  let ms ← v.fields?
  return ⟨← nat? ms "executionOrder", ← optional? (some ∘ Json.asBool) ms "success"⟩

def cell? (v : Json) : Option Cell := do
  let ms ← v.fields?
  return {
    kind := ← (Json.member? ms "kind").bind kind?
    document := ← text? ms "document"
    metadata := Json.present? ms "metadata"
    execution := ← optional? execution? ms "executionSummary" }

def notebook? (v : Json) : Option NotebookItem := do
  let ms ← v.fields?
  return {
    uri := ← text? ms "uri"
    type := ← text? ms "notebookType"
    version := ← version? ms
    metadata := Json.present? ms "metadata"
    cells := ← list? cell? ms "cells" }

def item? (v : Json) : Option TextItem := do
  let ms ← v.fields?
  return {
    uri := ← text? ms "uri"
    language := ← (Json.member? ms "languageId").bind Language.ofJson?
    version := ← version? ms
    text := ← text? ms "text" }

def identifier? (v : Json) : Option String := do text? (← v.fields?) "uri"

def versioned? (v : Json) : Option (String × Int) := do
  let ms ← v.fields?
  return (← text? ms "uri", ← version? ms)

def position? (v : Json) : Option Position := do
  let ms ← v.fields?
  return ⟨← nat? ms "line", ← nat? ms "character"⟩

/-- A change with a range is one of that range, even if the range is null and so cannot be read. -/
def edit? (v : Json) : Option Edit := do
  let ms ← v.fields?
  if (Json.member? ms "range").isSome then
    let range ← object? ms "range"
    let start ← (Json.member? range "start").bind position?
    let stop ← (Json.member? range "end").bind position?
    let _ ← optional? (bounded? 0) ms "rangeLength"
    return .span start stop (← text? ms "text")
  else return .whole (← text? ms "text")

def edits? (v : Json) : Option (List Edit) := listOf? edit? v

def contentChange? (document edits : String) (v : Json) : Option ContentChange := do
  let ms ← v.fields?
  let (uri, version) ← (Json.member? ms document).bind versioned?
  return ⟨uri, version, ← list? edit? ms edits⟩

def structure? (v : Json) : Option StructureChange := do
  let ms ← v.fields?
  let array ← object? ms "array"
  return {
    start := ← nat? array "start"
    deleteCount := ← nat? array "deleteCount"
    inserted := (← optional? (listOf? cell?) array "cells").getD []
    opened := (← optional? (listOf? item?) ms "didOpen").getD []
    closed := (← optional? (listOf? identifier?) ms "didClose").getD [] }

def change? (v : Json) : Option NotebookChange := do
  let ms ← loose? ["metadata", "cells"] v
  let cells := (← optional? (loose? ["structure", "data", "textContent"]) ms "cells").getD []
  return {
    metadata := Json.present? ms "metadata"
    structural := ← optional? structure? cells "structure"
    data := ← optional? (listOf? cell?) cells "data"
    content := ← optional? (listOf? (contentChange? "document" "changes")) cells "textContent" }

inductive Method
  | openNotebook
  | changeNotebook
  | saveNotebook
  | closeNotebook
  | openDocument
  | changeDocument
  | closeDocument
  deriving DecidableEq, Repr

def Method.ofName? : String → Option Method
  | "notebookDocument/didOpen" => some .openNotebook
  | "notebookDocument/didChange" => some .changeNotebook
  | "notebookDocument/didSave" => some .saveNotebook
  | "notebookDocument/didClose" => some .closeNotebook
  | "textDocument/didOpen" => some .openDocument
  | "textDocument/didChange" => some .changeDocument
  | "textDocument/didClose" => some .closeDocument
  | _ => none

def Method.read (m : Method) (params : Json) : Option Notification := do
  let ms ← params.fields?
  let part {α : Type} (name : String) (read : Json → Option α) : Option α :=
    (Json.member? ms name).bind read
  match m with
  | .openNotebook =>
    return .openNotebook (← part "notebookDocument" notebook?)
      (← list? item? ms "cellTextDocuments")
  | .changeNotebook =>
    let (uri, version) ← part "notebookDocument" versioned?
    return .changeNotebook uri version (← part "change" change?)
  | .saveNotebook => return .saveNotebook (← part "notebookDocument" identifier?)
  | .closeNotebook =>
    return .closeNotebook (← part "notebookDocument" identifier?)
      (← list? identifier? ms "cellTextDocuments")
  | .openDocument => return .openDocument (← part "textDocument" item?)
  | .changeDocument =>
    return .changeDocument (← contentChange? "textDocument" "contentChanges" params)
  | .closeDocument => return .closeDocument (← part "textDocument" identifier?)

def folder? (v : Json) : Option Folder := do
  let ms ← v.fields?
  return ⟨← text? ms "uri", some (← text? ms "name")⟩

def folderChange? (params : Json) : Option (List String × List Folder) := do
  let event ← object? (← params.fields?) "event"
  let removed ← list? folder? event "removed"
  return (removed.map Folder.uri, ← list? folder? event "added")

end Notification
end NotebookHub
