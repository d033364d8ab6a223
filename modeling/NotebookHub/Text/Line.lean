namespace NotebookHub.Text

/-- LF, VT, FF, CR, the separators 1C to 1E, NEL and the two separators of the standard. -/
def isBreak (c : Char) : Bool :=
  let n := c.toNat
  (10 ≤ n && n ≤ 13) || (0x1C ≤ n && n ≤ 0x1E) || n == 0x85 || n == 0x2028 || n == 0x2029

/-- A carriage return and the line feed after it are one break. -/
def lines : List Char → List (List Char)
  | [] => []
  | c :: rest =>
    match c, rest with
    | '\r', '\n' :: rest => ['\r', '\n'] :: lines rest
    | c, rest =>
      if isBreak c then [c] :: lines rest
      else
        match lines rest with
        | [] => [[c]]
        | first :: others => (c :: first) :: others

theorem flatten_lines (s : List Char) : (lines s).flatten = s := by
  fun_induction lines s with
  | case1 => rfl
  | case2 rest ih => simp [ih]
  | case3 c rest _ h ih => simp [ih]
  | case4 c rest _ h hl ih => simp_all
  | case5 c rest _ h first others hl ih =>
    simp only [hl, List.flatten_cons] at ih
    simp [← ih]

def plainEnd : List Char → List Char
  | [] => []
  | '\r' :: '\n' :: rest => '\n' :: plainEnd rest
  | c :: rest => c :: plainEnd rest

def withoutBreak (line : List Char) : List Char :=
  (line.reverse.dropWhile isBreak).reverse

/-- CRLF and a lone CR become LF, as when a text file is opened. -/
def foldReturns : List Char → List Char
  | [] => []
  | '\r' :: '\n' :: rest => '\n' :: foldReturns rest
  | '\r' :: rest => '\n' :: foldReturns rest
  | c :: rest => c :: foldReturns rest

end NotebookHub.Text
