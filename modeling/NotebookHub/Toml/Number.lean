import NotebookHub.Text.Reading
import NotebookHub.Toml.Quoted

namespace NotebookHub.Toml

/-- Digits with single underscores between them: the digits, and what follows. `here` says that a
digit has gone before. -/
def digitRun (isDigit : Char → Bool) (here : Bool) : List Char → List Char × List Char
  | [] => ([], [])
  | '_' :: c :: rest =>
    if here && isDigit c then
      let (ds, r) := digitRun isDigit true rest
      (c :: ds, r)
    else ([], '_' :: c :: rest)
  | c :: rest =>
    if isDigit c then
      let (ds, r) := digitRun isDigit true rest
      (c :: ds, r)
    else ([], c :: rest)

def digitsIn? (base : Nat) (s : List Char) : Option (List Char × List Char) :=
  let run := digitRun (fun c => (Text.hexValue? c).any (· < base)) false s
  if run.1.isEmpty then none else some run

def valueIn (base : Nat) (digits : List Char) : Nat :=
  digits.foldl (fun n d => n * base + (Text.hexValue? d).getD 0) 0

/-- The digits of the whole part: a lone zero, or digits that start with another one. -/
def wholePart? : List Char → Option (List Char × List Char)
  | '0' :: rest => some (['0'], rest)
  | s => digitsIn? 10 s

def signed : List Char → Bool × List Char
  | '-' :: rest => (true, rest)
  | '+' :: rest => (false, rest)
  | rest => (false, rest)

def afterFraction? : List Char → Option (List Char)
  | '.' :: rest => (digitsIn? 10 rest).map Prod.snd
  | _ => none

def afterExponent? : List Char → Option (List Char)
  | e :: rest =>
    if e = 'e' || e = 'E' then (digitsIn? 10 (signed rest).2).map Prod.snd else none
  | [] => none

def written (s rest : List Char) : String := String.ofList (s.take (s.length - rest.length))

/-- A whole number keeps to the limit of digits. -/
def decimal (s : List Char) : Except ReadError (Toml × List Char) :=
  let (negative, unsigned) := signed s
  match wholePart? unsigned with
  | none => .error .malformed
  | some (digits, rest) =>
    let fraction := afterFraction? rest
    let exponent := afterExponent? (fraction.getD rest)
    match exponent.or fraction with
    | some rest => .ok (.real (written s rest), rest)
    | none =>
      let n := valueIn 10 digits
      (checkDigits digits.length).map fun _ => (.whole (if negative then -(n : Int) else n), rest)

def special? (s : List Char) : Option (Toml × List Char) :=
  match (signed s).2 with
  | 'i' :: 'n' :: 'f' :: rest | 'n' :: 'a' :: 'n' :: rest => some (.real (written s rest), rest)
  | _ => none

def wholeIn? (base : Nat) (s : List Char) : Option (Toml × List Char) :=
  (digitsIn? base s).map fun (ds, rest) => (.whole (valueIn base ds), rest)

/-- A number in another base has no limit of digits. -/
def otherBase? : List Char → Option (Toml × List Char)
  | '0' :: 'x' :: rest => wholeIn? 16 rest
  | '0' :: 'o' :: rest => wholeIn? 8 rest
  | '0' :: 'b' :: rest => wholeIn? 2 rest
  | _ => none

def number (s : List Char) : Except ReadError (Toml × List Char) :=
  match (otherBase? s).or (special? s) with
  | some r => .ok r
  | none => decimal s

end NotebookHub.Toml
