import NotebookHub.Json.Value
import NotebookHub.Text.Digits
import NotebookHub.Text.Hex

namespace NotebookHub.Json

def isSpace (c : Char) : Bool := c == ' ' || c == '\t' || c == '\n' || c == '\r'

def skip (s : List Char) : List Char := s.dropWhile isSpace

def unit? (a b c d : Char) : Option Nat := do
  let high := (← Text.hexValue? a) * 16 + (← Text.hexValue? b)
  return high * 256 + (← Text.hexValue? c) * 16 + (← Text.hexValue? d)

/-- A piece of a string: a character as it stands, or an escaped code unit. -/
inductive Piece
  | char (c : Char)
  | unit (n : Nat)
  deriving DecidableEq, Repr

def plainEscape? : Char → Option Char
  | '"' => some '"'
  | '\\' => some '\\'
  | '/' => some '/'
  | 'b' => some '\x08'
  | 'f' => some '\x0c'
  | 'n' => some '\n'
  | 'r' => some '\r'
  | 't' => some '\t'
  | _ => none

def pieces : List Char → Option (List Piece × List Char)
  | [] => none
  | '"' :: rest => some ([], rest)
  | '\\' :: 'u' :: a :: b :: c :: d :: rest =>
    (unit? a b c d).bind fun n => (pieces rest).map fun (ps, r) => (.unit n :: ps, r)
  | '\\' :: e :: rest =>
    (plainEscape? e).bind fun c => (pieces rest).map fun (ps, r) => (.char c :: ps, r)
  | c :: rest =>
    if c.toNat < 0x20 || c == '\\' then none
    else (pieces rest).map fun (ps, r) => (.char c :: ps, r)

def isHigh (n : Nat) : Bool := 0xD800 ≤ n && n < 0xDC00
def isLow (n : Nat) : Bool := 0xDC00 ≤ n && n < 0xE000

/-- Puts the two units of a pair together. -/
def join : List Piece → Points
  | [] => []
  | .char c :: ps => .char c :: join ps
  | .unit n :: ps =>
    match ps with
    | .unit m :: rest =>
      if isHigh n && isLow m then
        .char (Char.ofNat (0x10000 + (n - 0xD800) * 1024 + (m - 0xDC00))) :: join rest
      else .ofUnit n :: join (.unit m :: rest)
    | ps => .ofUnit n :: join ps

def string (s : List Char) : Option (Points × List Char) :=
  (pieces s).map fun (ps, r) => (join ps, r)

def memberName? : List Char → Option (Points × List Char)
  | '"' :: rest =>
    (string rest).bind fun (name, rest) =>
      match skip rest with
      | ':' :: rest => some (name, skip rest)
      | _ => none
  | _ => none

def fraction (s : List Char) : List Char × List Char :=
  match s with
  | '.' :: rest =>
    if (rest.takeWhile Char.isDigit).isEmpty then ([], s)
    else (rest.takeWhile Char.isDigit, rest.dropWhile Char.isDigit)
  | _ => ([], s)

def exponent (s : List Char) : Option Int × List Char :=
  let digits (negative : Bool) (rest : List Char) : Option Int × List Char :=
    if (rest.takeWhile Char.isDigit).isEmpty then (none, s)
    else
      let n : Int := Text.asciiValue (rest.takeWhile Char.isDigit)
      (some (if negative then -n else n), rest.dropWhile Char.isDigit)
  match s with
  | e :: '-' :: rest => if e == 'e' || e == 'E' then digits true rest else (none, s)
  | e :: '+' :: rest => if e == 'e' || e == 'E' then digits false rest else (none, s)
  | e :: rest => if e == 'e' || e == 'E' then digits false rest else (none, s)
  | [] => (none, s)

/-- The whole part is a zero alone or starts with another digit. -/
def wholePart : List Char → Option (List Char × List Char)
  | '0' :: rest => some (['0'], rest)
  | s =>
    if (s.takeWhile Char.isDigit).isEmpty then none
    else some (s.takeWhile Char.isDigit, s.dropWhile Char.isDigit)

def afterInfinity? : List Char → Option (List Char)
  | 'I' :: 'n' :: 'f' :: 'i' :: 'n' :: 'i' :: 't' :: 'y' :: rest => some rest
  | _ => none

/-- A whole number keeps to the limit of digits; any other is rounded to a double. -/
def number (s : List Char) : Except ReadError (Json Points × List Char) :=
  let (negative, s) := match s with
    | '-' :: rest => (true, rest)
    | s => (false, s)
  match wholePart s, afterInfinity? s with
  | none, none => .error .malformed
  | none, some s => .ok (.real (.infinite negative), s)
  | some (whole, s), _ =>
    let (frac, s) := fraction s
    let (exp, s) := exponent s
    if frac.isEmpty && exp.isNone then
      (checkDigits whole.length).map fun _ =>
        (.int (if negative then -(Text.asciiValue whole : Int) else Text.asciiValue whole), s)
    else
      let d : Decimal := ⟨Text.asciiValue (whole ++ frac), exp.getD 0 - frac.length⟩
      .ok (.real (.ofDecimal negative d), s)

mutual

/-- A value and what follows it; `room` is how many lists and objects may lie within one another,
and `fuel` bounds the number of values and lists. -/
def value (fuel room : Nat) (s : List Char) : Except ReadError (Json Points × List Char) :=
  match fuel with
  | 0 => .error .malformed
  | fuel + 1 =>
    match s with
    | '"' :: rest =>
      match string rest with
      | some (t, r) => .ok (.str t, r)
      | none => .error .malformed
    | '{' :: rest =>
      match room with
      | 0 => .error .tooDeep
      | room + 1 =>
        match skip rest with
        | '}' :: rest => .ok (.obj [], rest)
        | rest => members fuel room [] rest
    | '[' :: rest =>
      match room with
      | 0 => .error .tooDeep
      | room + 1 =>
        match skip rest with
        | ']' :: rest => .ok (.arr [], rest)
        | rest => items fuel room [] rest
    | 'n' :: 'u' :: 'l' :: 'l' :: rest => .ok (.null, rest)
    | 't' :: 'r' :: 'u' :: 'e' :: rest => .ok (.bool true, rest)
    | 'f' :: 'a' :: 'l' :: 's' :: 'e' :: rest => .ok (.bool false, rest)
    | 'N' :: 'a' :: 'N' :: rest => .ok (.real .nan, rest)
    | s => number s

def items (fuel room : Nat) (done : List (Json Points)) (s : List Char) :
    Except ReadError (Json Points × List Char) :=
  match fuel with
  | 0 => .error .malformed
  | fuel + 1 =>
    (value fuel room s).bind fun (v, rest) =>
      match skip rest with
      | ',' :: rest => items fuel room (v :: done) (skip rest)
      | ']' :: rest => .ok (.arr (v :: done).reverse, rest)
      | _ => .error .malformed

def members (fuel room : Nat) (done : List (Points × Json Points)) (s : List Char) :
    Except ReadError (Json Points × List Char) :=
  match fuel with
  | 0 => .error .malformed
  | fuel + 1 =>
    match memberName? s with
    | none => .error .malformed
    | some (name, rest) =>
      (value fuel room rest).bind fun (v, rest) =>
        match skip rest with
        | ',' :: rest => members fuel room (setMember done name v) (skip rest)
        | '}' :: rest => .ok (.obj (setMember done name v), rest)
        | _ => .error .malformed

end

def read (s : List Char) (room : Nat := usualRoom) : Except ReadError (Json Points) :=
  (value (2 * s.length + 1) room (skip s)).bind fun (v, rest) =>
    if (skip rest).isEmpty then .ok v else .error .malformed

end NotebookHub.Json
