import NotebookHub.Text.Hex
import NotebookHub.Toml.Value

namespace NotebookHub.Toml

def escape? : Char → Option Char
  | 'b' => some '\x08'
  | 't' => some '\t'
  | 'n' => some '\n'
  | 'f' => some '\x0c'
  | 'r' => some '\r'
  | '"' => some '"'
  | '\\' => some '\\'
  | _ => none

def scalar? (n : Nat) : Option Char := if n.isValidChar then some (Char.ofNat n) else none

inductive Stage
  | plain
  /-- After a backslash. -/
  | escape
  /-- In an escaped number `n`, with this many digits to come after the next. -/
  | code (left n : Nat)
  /-- Between a backslash and the line break that it hides. -/
  | seam
  /-- After a hidden line break. -/
  | indent
  deriving DecidableEq, Repr

def isPlain (multiline : Bool) (c : Char) : Bool := !isControl c || (multiline && c = '\n')

/-- The quotes right after the closing three belong to the string, two at most. -/
def surplus (quote : Char) : List Char → List Char × List Char
  | a :: b :: rest =>
    if a = quote then if b = quote then ([a, b], rest) else ([a], b :: rest)
      else ([], a :: b :: rest)
  | [a] => if a = quote then ([a], []) else ([], [a])
  | [] => ([], [])

/-- What follows the closing quotes that `c :: rest` may start with, after the last characters of
the string. -/
def closing (quote : Char) (multiline : Bool) (c : Char) (rest : List Char) :
    Option (List Char × List Char) :=
  if c ≠ quote then none
  else if multiline then
    match rest with
    | a :: b :: rest => if a = quote && b = quote then some (surplus quote rest) else none
    | _ => none
  else some ([], rest)

def basic (multiline : Bool) (stage : Stage) : List Char → Option (List Char × List Char)
  | [] => none
  | c :: rest =>
    let keep (x : Char) := (basic multiline .plain rest).map fun (cs, r) => (x :: cs, r)
    match stage with
    | .escape =>
      if c = 'u' then basic multiline (.code 3 0) rest
      else if c = 'U' then basic multiline (.code 7 0) rest
      else if multiline && c = '\n' then basic multiline .indent rest
      else if multiline && isGap c then basic multiline .seam rest
      else (escape? c).bind keep
    | .code left n =>
      (Text.hexValue? c).bind fun d =>
        match left with
        | 0 => (scalar? (n * 16 + d)).bind keep
        | left + 1 => basic multiline (.code left (n * 16 + d)) rest
    | .seam =>
      if c = '\n' then basic multiline .indent rest
      else if isGap c then basic multiline .seam rest
      else none
    | stage =>
      if stage = .indent && (isGap c || c = '\n') then basic multiline .indent rest
      else
        match closing '"' multiline c rest with
        | some done => some done
        | none =>
          if c = '\\' then basic multiline .escape rest
          else if isPlain multiline c then keep c
          else none

def literal (multiline : Bool) : List Char → Option (List Char × List Char)
  | [] => none
  | c :: rest =>
    match closing '\'' multiline c rest with
    | some done => some done
    | none =>
      if isPlain multiline c then (literal multiline rest).map fun (cs, r) => (c :: cs, r) else none

/-- A line break right after three opening quotes does not count. -/
def withoutFirstBreak : List Char → List Char
  | '\n' :: rest => rest
  | s => s

def quotedLine? : List Char → Option (String × List Char)
  | '"' :: rest => (basic false .plain rest).map fun (cs, r) => (String.ofList cs, r)
  | '\'' :: rest => (literal false rest).map fun (cs, r) => (String.ofList cs, r)
  | _ => none

def quoted? : List Char → Option (String × List Char)
  | '"' :: '"' :: '"' :: rest =>
    (basic true .plain (withoutFirstBreak rest)).map fun (cs, r) => (String.ofList cs, r)
  | '\'' :: '\'' :: '\'' :: rest =>
    (literal true (withoutFirstBreak rest)).map fun (cs, r) => (String.ofList cs, r)
  | s => quotedLine? s

example : quoted? "\"a\\u00e9\\t\" b".toList = some ("aé\t", " b".toList) := by decide +kernel
example : quoted? "\"\\ud800\"".toList = none := by decide +kernel
example : quoted? "\"\"\"\na \\\n  b\"\"\"\"\"".toList = some ("a b\"\"", []) := by decide +kernel
example : quoted? "'''x''y'''".toList = some ("x''y", []) := by decide +kernel

end NotebookHub.Toml
