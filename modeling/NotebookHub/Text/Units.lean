namespace NotebookHub.Text

def units (c : Char) : Nat := if c.toNat > 0xFFFF then 2 else 1

def length16 : List Char → Nat
  | [] => 0
  | c :: s => units c + length16 s

/-- How many characters of `s` reach the unit offset `k`. An offset inside a pair counts the whole
character. -/
def column : List Char → Nat → Nat
  | [], _ => 0
  | c :: s, k => if k = 0 then 0 else column s (k - units c) + 1

end NotebookHub.Text
