import NotebookHub.Json.Literal

namespace NotebookHub

inductive Versioned
  | notebook
  | document
  deriving DecidableEq, Repr

structure VersionError where
  holder : Versioned
  given : String
  deriving DecidableEq, Repr

namespace Version

def least : Int := -2147483648

def greatest : Int := 2147483647

/-- A truth value counts as one or zero; a number with a point does not count, whatever it is. -/
def read (holder : Versioned) : Json → Except VersionError Int
  | .int n => if least ≤ n ∧ n ≤ greatest then .ok n else .error ⟨holder, (Json.int n).asText⟩
  | .bool b => .ok (if b then 1 else 0)
  | v => .error ⟨holder, v.asText⟩

end Version

def Versioned.fieldName : Versioned → String
  | .notebook => "NotebookDocument.version"
  | .document => "VersionedTextDocumentIdentifier.version"

def VersionError.message (e : VersionError) : String :=
  s!"{e.holder.fieldName} should be in range [{Version.least}:{Version.greatest}], " ++
    s!"but was {e.given}."

end NotebookHub
