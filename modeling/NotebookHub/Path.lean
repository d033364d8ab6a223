import NotebookHub.Text.Pieces

namespace NotebookHub

/-- How a path starts. Exactly two slashes are a root of their own. -/
inductive Root
  | relative
  | single
  | double
  deriving DecidableEq, Repr

structure Path where
  root : Root
  names : List String
  deriving DecidableEq, Repr

namespace Path

def rootOf : List Char → Root
  | '/' :: '/' :: '/' :: _ => .single
  | '/' :: '/' :: _ => .double
  | '/' :: _ => .single
  | _ => .relative

def isName (piece : List Char) : Bool := piece ≠ [] && piece ≠ ['.']

def ofChars (s : List Char) : Path :=
  ⟨rootOf s, ((Text.pieces '/' s).filter isName).map String.ofList⟩

def rootChars : Root → List Char
  | .relative => []
  | .single => ['/']
  | .double => ['/', '/']

/-- The written path; nothing at all for the empty relative path. -/
def chars (p : Path) : List Char :=
  rootChars p.root ++ ['/'].intercalate (p.names.map String.toList)

/-- The empty relative path is written as a dot. -/
def text (p : Path) : String :=
  if p.chars = [] then "." else String.ofList p.chars

def isAbsolute (p : Path) : Bool := p.root ≠ .relative

def hasNull (p : Path) : Bool := p.names.any fun n => n.toList.contains '\x00'

def isWithin (p folder : Path) : Bool :=
  p.root = folder.root && folder.names.isPrefixOf p.names

/-- The path `p` taken from the folder `base`; an absolute path stands for itself. -/
def below (base p : Path) : Path :=
  if p.isAbsolute then p else ⟨base.root, base.names ++ p.names⟩

end Path
end NotebookHub
