namespace NotebookHub

structure Half where
  unit : Nat
  isHalf : 0xD800 ≤ unit ∧ unit < 0xE000
  deriving DecidableEq, Repr

/-- A code point. Half of a pair is one when the other half is missing. -/
inductive Point
  | char (c : Char)
  | half (h : Half)
  deriving DecidableEq, Repr

namespace Point

def code : Point → Nat
  | .char c => c.toNat
  | .half h => h.unit

def ofUnit (n : Nat) : Point :=
  if h : 0xD800 ≤ n ∧ n < 0xE000 then .half ⟨n, h⟩ else .char (Char.ofNat n)

/-- A half reads as a replacement character where only characters can stand. -/
def toChar : Point → Char
  | .char c => c
  | .half _ => '\uFFFD'

end Point

abbrev Points := List Point

/-- A kind of text that strings are among. -/
class TextLike (T : Type) where
  ofString : String → T

instance : TextLike String := ⟨id⟩

instance : TextLike Points := ⟨fun s => s.toList.map .char⟩

instance : Coe Points String := ⟨fun ps => String.ofList (ps.map Point.toChar)⟩

end NotebookHub
