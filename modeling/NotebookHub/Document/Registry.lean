import NotebookHub.Document.Edit
import NotebookHub.Document.Language
import NotebookHub.Table
import NotebookHub.Uri.Address

namespace NotebookHub

/-- How a workspace reads a document: as a file, or as one cell of a notebook. -/
inductive Mode
  | file
  | cell
  deriving DecidableEq, Repr

def Mode.text : Mode → String
  | .file => "none"
  | .cell => "cell_docs"

structure Document where
  address : Address
  language : Language
  mode : Mode
  predecessor : Option String
  text : String
  version : Int
  /-- How many times its key had been opened afresh when this document began. -/
  life : Nat
  deriving DecidableEq, Repr

structure Registry where
  documents : Table Key Document := .empty
  /-- How often each key was opened afresh, kept after the document is closed. -/
  lives : Table Key Nat := .empty

namespace Registry

def get? (r : Registry) (k : Key) : Option Document := r.documents.get? k

structure Opening where
  address : Address
  language : Language
  version : Int
  text : String
  mode : Mode
  predecessor : Option String

def enter (r : Registry) (o : Opening) : Registry × Document :=
  match r.get? o.address.key with
  | some d =>
    let d := { d with
      text := o.text, version := o.version, mode := o.mode, predecessor := o.predecessor }
    ({ r with documents := r.documents.insert o.address.key d }, d)
  | none =>
    let life := (r.lives.get? o.address.key).getD 0 + 1
    let d : Document :=
      { address := o.address, language := o.language, mode := o.mode,
        predecessor := o.predecessor, text := o.text, version := o.version, life }
    (⟨r.documents.insert o.address.key d, r.lives.insert o.address.key life⟩, d)

def update (r : Registry) (k : Key) (edits : List Edit) (version : Int) :
    Registry × List Edit :=
  match r.get? k with
  | none => (r, edits)
  | some d =>
    let (text, settled) := Edit.applyAll edits d.text
    ({ r with documents := r.documents.insert k { d with text, version } }, settled)

def link (r : Registry) (k : Key) (predecessor : Option String) : Registry :=
  { r with documents := r.documents.modify k fun d => { d with predecessor } }

def close (r : Registry) (k : Key) : Registry :=
  { r with documents := r.documents.erase k }

def clear (r : Registry) : Registry := { r with documents := .empty }

/-- The document under `k` is still in the life that a notice speaks of. -/
def isCurrent (r : Registry) (k : Key) (life : Nat) : Bool :=
  (r.get? k).any fun d => d.life == life

end Registry
end NotebookHub
