namespace NotebookHub

inductive Toml
  | text (s : String)
  | whole (n : Int)
  | flag (b : Bool)
  | real (written : String)
  | moment (written : String)
  | array (items : List Toml)
  | table (members : List (String × Toml))
  deriving Repr, Inhabited

namespace Toml

def member? (members : List (String × Toml)) (name : String) : Option Toml :=
  (members.find? (·.1 = name)).map Prod.snd

def members? : Toml → Option (List (String × Toml))
  | .table ms => some ms
  | _ => none

def isControl (c : Char) : Bool := (c.toNat < 0x20 && c ≠ '\t') || c.toNat = 0x7F

def isGap (c : Char) : Bool := c = ' ' || c = '\t'

def skip (s : List Char) : List Char := s.dropWhile isGap

end Toml
end NotebookHub
