import NotebookHub.Toml.Number

namespace NotebookHub.Toml

def fixed? (n : Nat) (s : List Char) : Option (Nat × List Char) :=
  if (s.take n).length = n && (s.take n).all Char.isDigit then
    some ((s.take n).foldl (fun v d => v * 10 + (d.toNat - 48)) 0, s.drop n)
  else none

def after? (c : Char) : List Char → Option (List Char)
  | d :: rest => if d = c then some rest else none
  | [] => none

def isLeap (year : Nat) : Bool := year % 4 = 0 && (year % 100 ≠ 0 || year % 400 = 0)

def daysIn (year month : Nat) : Nat :=
  if month = 2 then if isLeap year then 29 else 28
  else if month ∈ [4, 6, 9, 11] then 30
  else 31

def afterDate? (s : List Char) : Option (List Char) := do
  let (year, s) ← fixed? 4 s
  let (month, s) ← fixed? 2 (← after? '-' s)
  let (day, s) ← fixed? 2 (← after? '-' s)
  guard (1 ≤ year ∧ 1 ≤ month ∧ month ≤ 12 ∧ 1 ≤ day ∧ day ≤ daysIn year month)
  return s

def afterMinutes? (s : List Char) : Option (List Char) := do
  let (hour, s) ← fixed? 2 s
  let (minute, s) ← fixed? 2 (← after? ':' s)
  guard (hour ≤ 23 ∧ minute ≤ 59)
  return s

def afterSplit (s : List Char) : List Char :=
  match s with
  | '.' :: rest => if (rest.takeWhile Char.isDigit).isEmpty then s else rest.dropWhile Char.isDigit
  | s => s

def afterTime? (s : List Char) : Option (List Char) := do
  let (second, s) ← fixed? 2 (← after? ':' (← afterMinutes? s))
  guard (second ≤ 59)
  return afterSplit s

def afterOffset (s : List Char) : List Char :=
  match s with
  | c :: rest =>
    if c = 'Z' || c = 'z' then rest
    else if c = '+' || c = '-' then (afterMinutes? rest).getD s
    else s
  | [] => s

def afterMoment? (s : List Char) : Option (List Char) :=
  match afterDate? s with
  | some date =>
    match date with
    | c :: rest =>
      if c = 'T' || c = 't' || c = ' ' then some (((afterTime? rest).map afterOffset).getD date)
      else some date
    | [] => some date
  | none => afterTime? s

def moment? (s : List Char) : Option (Toml × List Char) :=
  (afterMoment? s).map fun rest => (.moment (written s rest), rest)

example : afterMoment? "2024-02-29 07:32:00.5+01:00 #".toList = some " #".toList := by
  decide +kernel
example : afterMoment? "2023-02-29".toList = none := by decide +kernel

end NotebookHub.Toml
