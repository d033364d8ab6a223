import NotebookHub.Text.Hex
import NotebookHub.Text.Printable

namespace NotebookHub.Text

def quote : Char := Char.ofNat 39

def hexText (width n : Nat) : List Char :=
  let ds := Nat.toDigits 16 n
  List.replicate (width - ds.length) '0' ++ ds

def shownChar (q c : Char) : List Char :=
  if c == q || c == '\\' then ['\\', c]
  else if c == '\n' then ['\\', 'n']
  else if c == '\r' then ['\\', 'r']
  else if c == '\t' then ['\\', 't']
  else if !isPrintable c then
    if c.toNat < 0x100 then '\\' :: 'x' :: hexText 2 c.toNat
    else if c.toNat < 0x10000 then '\\' :: 'u' :: hexText 4 c.toNat
    else '\\' :: 'U' :: hexText 8 c.toNat
  else [c]

def quoted (s : String) : String :=
  let q := if s.toList.contains quote && !s.toList.contains '"' then '"' else quote
  String.ofList (q :: (s.toList.flatMap (shownChar q) ++ [q]))

end NotebookHub.Text
