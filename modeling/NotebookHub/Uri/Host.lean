import NotebookHub.Text.Digits
import NotebookHub.Text.Hex
import NotebookHub.Text.Pieces

namespace NotebookHub.Uri.Host

def isOctet (s : List Char) : Bool :=
  !s.isEmpty && s.length ≤ 3 && s.all Char.isDigit && (s == ['0'] || s.head? != some '0') &&
    Text.asciiValue s ≤ 255

def isFourth (s : List Char) : Bool :=
  (Text.pieces '.' s).length == 4 && (Text.pieces '.' s).all isOctet

def isHex (c : Char) : Bool := (Text.hexValue? c).isSome

def isGroup (s : List Char) : Bool := !s.isEmpty && s.length ≤ 4 && s.all isHex

/-- The groups before and after the first that is empty and has others on both sides. -/
def gap? (before : List (List Char)) :
    List (List Char) → Option (List (List Char) × List (List Char))
  | [] :: g :: rest => if before.isEmpty then gap? [[]] (g :: rest) else some (before, g :: rest)
  | g :: rest => gap? (before ++ [g]) rest
  | [] => none

/-- The groups on one side of a gap; a gap at the end of an address leaves an empty one. -/
def side (groups : List (List Char)) : List (List Char) := if groups = [[]] then [] else groups

/-- The last two groups may be written as an address of the fourth version. -/
def groups (s : List Char) : List (List Char) :=
  let gs := Text.pieces ':' s
  match gs.getLast? with
  | some last => if isFourth last then gs.dropLast ++ [['0'], ['0']] else gs
  | none => gs

/-- A zone may follow a percent sign. -/
def isSixth (s : List Char) : Bool :=
  let zone := s.dropWhile (· ≠ '%')
  let gs := groups (s.takeWhile (· ≠ '%'))
  (zone.isEmpty || (zone.length ≠ 1 && !(zone.drop 1).contains '%')) &&
    match gap? [] gs with
    | none => gs.length == 8 && gs.all isGroup
    | some (high, low) =>
      (side high ++ side low).length ≤ 7 && (side high ++ side low).all isGroup

/-- A version in hexadecimal digits, a point, and something after it. -/
def isFuture (s : List Char) : Bool :=
  match s with
  | 'v' :: rest =>
    !(rest.takeWhile isHex).isEmpty &&
      match rest.dropWhile isHex with
      | '.' :: _ :: _ => true
      | _ => false
  | _ => false

example : isSixth "::1".toList ∧ isSixth "1:2::7.8.9.10%a".toList := by decide +kernel
example : isSixth "1:2:3:4:5:6:7::".toList ∧ isFuture "vF.x".toList := by decide +kernel
example : !isSixth ":::".toList ∧ !isSixth "1::2::3".toList ∧ !isSixth "1.2.3.4".toList := by
  decide +kernel

end NotebookHub.Uri.Host
