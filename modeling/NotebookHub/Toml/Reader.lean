import NotebookHub.Toml.Moment
import NotebookHub.Toml.Tree

namespace NotebookHub.Toml

def isBareKey (c : Char) : Bool := c.isAlphanum || c = '-' || c = '_'

def keyName? (s : List Char) : Option (String × List Char) :=
  if (s.takeWhile isBareKey).isEmpty then quotedLine? s
  else some (String.ofList (s.takeWhile isBareKey), s.dropWhile isBareKey)

/-- A key, the names that it has `passed` so far before it, and what follows it; `fuel` bounds the
number of names. -/
def key? (fuel : Nat) (passed : List String) (s : List Char) : Option (DottedKey × List Char) :=
  match fuel with
  | 0 => none
  | fuel + 1 =>
    (keyName? s).bind fun (name, rest) =>
      match skip rest with
      | '.' :: rest => key? fuel (passed ++ [name]) (skip rest)
      | rest => some (⟨passed, name⟩, rest)

def skipLines (inComment : Bool) : List Char → Option (List Char)
  | [] => some []
  | c :: rest =>
    if inComment then
      if c = '\n' then skipLines false rest
      else if isControl c then none
      else skipLines true rest
    else if isGap c || c = '\n' then skipLines false rest
    else if c = '#' then skipLines true rest
    else some (c :: rest)

/-- How many nested calls the items of an array take. -/
def arrayCalls : Nat := 2

def tableCalls : Nat := 3

def orMalformed {α : Type} : Option α → Except ReadError α
  | some a => .ok a
  | none => .error .malformed

mutual

/-- A value and what follows it; `room` is how many nested calls are left, and `fuel` bounds the
number of values. -/
def value (fuel room : Nat) (s : List Char) : Except ReadError (Toml × List Char) :=
  match fuel with
  | 0 => .error .malformed
  | fuel + 1 =>
    match s with
    | '[' :: rest =>
      if room < arrayCalls then .error .tooDeep
      else
        (orMalformed (skipLines false rest)).bind fun rest =>
          match rest with
          | ']' :: rest => .ok (.array [], rest)
          | rest => items fuel (room - arrayCalls) [] rest
    | '\x7b' :: rest =>
      if room < tableCalls then .error .tooDeep
      else
        match skip rest with
        | '\x7d' :: rest => .ok (.table [], rest)
        | rest => members fuel (room - tableCalls) {} rest
    | 't' :: 'r' :: 'u' :: 'e' :: rest => .ok (.flag true, rest)
    | 'f' :: 'a' :: 'l' :: 's' :: 'e' :: rest => .ok (.flag false, rest)
    | s =>
      match ((quoted? s).map fun (t, r) => (Toml.text t, r)).or (moment? s) with
      | some r => .ok r
      | none => number s

def items (fuel room : Nat) (done : List Toml) (s : List Char) :
    Except ReadError (Toml × List Char) :=
  match fuel with
  | 0 => .error .malformed
  | fuel + 1 =>
    (value fuel room s).bind fun (v, rest) =>
      (orMalformed (skipLines false rest)).bind fun rest =>
        match rest with
        | ']' :: rest => .ok (.array (v :: done).reverse, rest)
        | ',' :: rest =>
          (orMalformed (skipLines false rest)).bind fun rest =>
            match rest with
            | ']' :: rest => .ok (.array (v :: done).reverse, rest)
            | rest => items fuel room (v :: done) rest
        | _ => .error .malformed

def members (fuel room : Nat) (d : Draft) (s : List Char) :
    Except ReadError (Toml × List Char) :=
  match fuel with
  | 0 => .error .malformed
  | fuel + 1 =>
    (assignment fuel room d s).bind fun (d, rest) =>
      match skip rest with
      | '\x7d' :: rest => .ok (.table d.finished, rest)
      | ',' :: rest => members fuel room d (skip rest)
      | _ => .error .malformed

def assignment (fuel room : Nat) (d : Draft) (s : List Char) :
    Except ReadError (Draft × List Char) :=
  match fuel with
  | 0 => .error .malformed
  | fuel + 1 =>
    (orMalformed (key? s.length [] s)).bind fun (k, rest) =>
      match rest with
      | '=' :: rest =>
        (value fuel room (skip rest)).bind fun (v, rest) =>
          (orMalformed (d.assign k v)).map fun d => (d, rest)
      | _ => .error .malformed

end

/-- A header after its opening bracket; two brackets open the next table of an array. -/
def header? (d : Draft) (s : List Char) : Option (Draft × List Char) :=
  match s with
  | '[' :: rest =>
    (key? s.length [] (skip rest)).bind fun (k, rest) =>
      match rest with
      | ']' :: ']' :: rest => (d.openNext k).map fun d => (d, rest)
      | _ => none
  | s =>
    (key? s.length [] (skip s)).bind fun (k, rest) =>
      match rest with
      | ']' :: rest => (d.openTable k).map fun d => (d, rest)
      | _ => none

def statement (room : Nat) (d : Draft) (s : List Char) : Except ReadError (Draft × List Char) :=
  match s with
  | '[' :: rest => orMalformed (header? d rest)
  | s => assignment (2 * s.length + 1) room d s

def afterLine? (inComment : Bool) : List Char → Option (List Char)
  | [] => some []
  | c :: rest =>
    if c = '\n' then some rest
    else if inComment then if isControl c then none else afterLine? true rest
    else if isGap c then afterLine? false rest
    else if c = '#' then afterLine? true rest
    else none

/-- Reads line by line; `fuel` bounds the number of lines. -/
def statements (fuel room : Nat) (d : Draft) (s : List Char) : Except ReadError Draft :=
  match fuel with
  | 0 => .error .malformed
  | fuel + 1 =>
    match skip s with
    | [] => .ok d
    | s =>
      match afterLine? false s with
      | some rest => statements fuel room d rest
      | none =>
        (statement room d s).bind fun (d, rest) =>
          (orMalformed (afterLine? false rest)).bind (statements fuel room d)

def read (s : List Char) (room : Nat := usualRoom) : Except ReadError (List (String × Toml)) :=
  (statements (s.length + 1) room {} s).map Draft.finished

end NotebookHub.Toml
