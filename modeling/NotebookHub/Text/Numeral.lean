import NotebookHub.Text.Digits

namespace NotebookHub.Text

/-- A fraction goes if it is zeros only, at least one. -/
def withoutFraction (s : List Char) : List Char :=
  match s.dropWhile (· ≠ '.') with
  | _ :: zero :: zeros => if (zero :: zeros).all (· == '0') then s.takeWhile (· ≠ '.') else s
  | _ => s

/-- Zeros in front go with any underscores among them; of nothing else the last character stays. -/
def withoutZeros (s : List Char) : List Char :=
  if s.head? = some '0' then
    match s.dropWhile fun c => c == '0' || c == '_' with
    | [] => s.getLast?.toList
    | rest => rest
  else s

/-- Underscores go if each stands alone and none at an end. -/
def withoutUnderscores (s : List Char) : List Char :=
  if s.head? = some '_' || s.getLast? = some '_' || (s.zip s.tail).contains ('_', '_') then s
  else s.filter (· ≠ '_')

def tidied (s : List Char) : List Char := withoutUnderscores (withoutZeros (withoutFraction s))

def plainNatural? : List Char → Option Nat
  | [] => none
  | ['0'] => some 0
  | '0' :: _ => none
  | ds => if ds.length ≤ maxDigits && ds.all Char.isDigit then some (asciiValue ds) else none

def plainInteger? : List Char → Option Int
  | '-' :: ds => (plainNatural? ds).map fun n => -(n : Int)
  | ds => (plainNatural? ds).map Int.ofNat

def numeral? (s : String) : Option Int :=
  match strip isSpace s.toList with
  | '-' :: rest => (plainNatural? (tidied rest)).map fun n => -(n : Int)
  | '+' :: '-' :: _ => none
  | '+' :: rest => plainInteger? (tidied rest)
  | s => plainInteger? (tidied s)

example : numeral? " +0_1.0 " = some 1 ∧ numeral? "-1_0.00" = some (-10) := by decide +kernel
example : numeral? "5." = none ∧ numeral? "1.0_0" = none ∧ numeral? "1__0" = none := by
  decide +kernel
example : numeral? "0-5" = some (-5) ∧ numeral? "-05" = some (-5) ∧
    numeral? "-0__5" = some (-5) := by
  decide +kernel
example : numeral? "-0-5" = none ∧ numeral? "+-5" = none ∧ numeral? "-_5" = none := by
  decide +kernel

end NotebookHub.Text
