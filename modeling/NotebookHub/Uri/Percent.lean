import NotebookHub.Text.Hex
import NotebookHub.Text.Utf8

namespace NotebookHub.Uri

/-- Letters, digits and these five stand for themselves. -/
def isSafe (c : Char) : Bool :=
  c.isAlphanum || c == '_' || c == '.' || c == '-' || c == '~' || c == '/'

def escape (octet : Nat) : List Char :=
  ['%', Text.hexUpper (octet / 16), Text.hexUpper (octet % 16)]

def percentEncode (s : List Char) : List Char :=
  s.flatMap fun c => if isSafe c then [c] else (Utf8.encodeChar c).flatMap escape

def isAscii (c : Char) : Bool := c.toNat < 128

/-- The octets of an ASCII text with escapes; a percent sign without two digits stands for
itself. -/
def octets : List Char → List Nat
  | [] => []
  | '%' :: a :: b :: rest =>
    match Text.hexValue? a, Text.hexValue? b with
    | some x, some y => (16 * x + y) :: octets rest
    | _, _ => '%'.toNat :: octets (a :: b :: rest)
  | c :: rest => c.toNat :: octets rest

/-- A character outside ASCII ends the octets before it. -/
def percentDecode (s : List Char) : List Char :=
  let plain := Utf8.decodeLossy (octets (s.takeWhile isAscii))
  match _h : s.dropWhile isAscii with
  | [] => plain
  | c :: rest => plain ++ c :: percentDecode rest
termination_by s.length
decreasing_by
  have := (List.dropWhile_sublist isAscii (l := s)).length_le
  rw [_h] at this
  simp at this
  omega

example : percentEncode "/a b/é".toList = "/a%20b/%C3%A9".toList := by cbv
example : percentDecode "/a%20b/%C3%A9%zz%".toList = "/a b/é%zz%".toList := by cbv

end NotebookHub.Uri
