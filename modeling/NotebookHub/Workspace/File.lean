import NotebookHub.Document.Registry

namespace NotebookHub

structure File where
  uri : String
  mode : Mode
  predecessor : Option String
  text : String
  version : Int
  deriving DecidableEq, Repr

/-- What a workspace is told about a document. A version that was left out reads as 0. -/
inductive Message
  | opened (document : Address) (version : Option Int) (text : String) (mode : Mode)
      (predecessor : Option String)
  | closed (document : Address)
  | changed (document : Address) (edits : List Edit) (version : Option Int)
  | linked (document : Address) (predecessor : Option String)
  deriving DecidableEq, Repr

def Message.document : Message → Address
  | .opened a .. | .closed a | .changed a .. | .linked a _ => a

/-- Without a root it takes every path. -/
structure Workspace where
  name : String
  root : Option Path
  files : Table Key File := .empty

inductive SourceError
  | uri (e : Uri.Error)
  | missing (uri : String)
  deriving DecidableEq, Repr

/-- What became of a message: the message with its edits settled, and whether it spoke of a document
that the workspace does not hold. -/
structure Receipt where
  message : Message
  ignored : Bool
  deriving DecidableEq, Repr

namespace Workspace

def contains (w : Workspace) (p : Path) : Bool :=
  match w.root with
  | none => true
  | some folder => p.isWithin folder

def get? (w : Workspace) (k : Key) : Option File := w.files.get? k

def receive (w : Workspace) (m : Message) : Workspace × Receipt :=
  match m with
  | .opened a version text mode predecessor =>
    let file := { uri := a.uri, mode, predecessor, text, version := version.getD 0 }
    ({ w with files := w.files.insert a.key file }, ⟨m, false⟩)
  | .closed a => ({ w with files := w.files.erase a.key }, ⟨m, false⟩)
  | .changed a edits version =>
    match w.get? a.key with
    | none => (w, ⟨m, true⟩)
    | some f =>
      let (text, settled) := Edit.applyAll edits f.text
      let file := { f with text, version := version.getD 0 }
      ({ w with files := w.files.insert a.key file }, ⟨.changed a settled version, false⟩)
  | .linked a predecessor =>
    match w.get? a.key with
    | none => (w, ⟨m, true⟩)
    | some f =>
      ({ w with files := w.files.insert a.key { f with predecessor } }, ⟨m, false⟩)

def clear (w : Workspace) : Workspace := { w with files := .empty }

/-- Walks from `uri` back over predecessors and puts the files it passes in front of `chain`. It
stops at a document that is not held or was passed already; every step takes one of the files that
`fuel` counts. -/
def walkBack (w : Workspace) : (fuel : Nat) → (seen : List Key) → (chain : List File) →
    (uri : String) → Except Uri.Error (List File)
  | 0, _, chain, _ => .ok chain
  | fuel + 1, seen, chain, uri => do
    let k ← Uri.key uri
    match w.get? k with
    | none => return chain
    | some f =>
      if k ∈ seen then return chain
      match f.predecessor with
      | none => return f :: chain
      | some p => walkBack w fuel (k :: seen) (f :: chain) p

def chainOf (w : Workspace) (uri : String) : Except Uri.Error (List File) :=
  walkBack w (w.files.size + 1) [] [] uri

def textOf (w : Workspace) (uri : String) : Except SourceError String :=
  match Uri.key uri with
  | .error e => .error (.uri e)
  | .ok k =>
    match w.get? k with
    | none => .error (.missing uri)
    | some f => .ok f.text

/-- The program that a chain amounts to: the texts of its files, each looked up under its own
URI. -/
def chainedSource (w : Workspace) (uri : String) : Except SourceError String :=
  match w.chainOf uri with
  | .error e => .error (.uri e)
  | .ok files => (files.mapM fun f => w.textOf f.uri).map ("\n".intercalate ·)

end Workspace
end NotebookHub
