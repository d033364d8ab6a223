namespace NotebookHub

/-- The number `mantissa * 10 ^ exponent`. -/
structure Decimal where
  mantissa : Nat
  exponent : Int
  deriving DecidableEq, Repr

namespace Decimal

def digits (d : Decimal) : List Char := Nat.toDigits 10 d.mantissa

def reduced (d : Decimal) : Decimal :=
  if d.mantissa = 0 then ⟨0, 0⟩
  else
    let zeros := (d.digits.reverse.takeWhile (· == '0')).length
    ⟨d.mantissa / Nat.pow 10 zeros, d.exponent + zeros⟩

def pointPlace (d : Decimal) : Int := d.digits.length + d.exponent

def exponentText (n : Int) : String :=
  let ds := String.ofList (Nat.toDigits 10 n.natAbs)
  (if n < 0 then "e-" else "e+") ++ (if n.natAbs < 10 then "0" else "") ++ ds

/-- A point that has up to sixteen digits before it or up to three zeros after it is written. -/
def text (d : Decimal) : String :=
  let r := d.reduced
  let ds := r.digits
  let place := if r.mantissa = 0 then 1 else r.pointPlace
  if 16 < place ∨ place ≤ -4 then
    let fraction := if ds.length = 1 then [] else '.' :: ds.drop 1
    String.ofList (ds.take 1 ++ fraction) ++ exponentText (place - 1)
  else
    let zeros (n : Int) : List Char := List.replicate n.toNat '0'
    let whole := if place ≤ 0 then ['0'] else ds.take place.toNat ++ zeros (place - ds.length)
    let fraction := zeros (-place) ++ ds.drop place.toNat
    String.ofList (whole ++ '.' :: (if fraction.isEmpty then ['0'] else fraction))

example : text ⟨150, -2⟩ = "1.5" ∧ text ⟨12, 16⟩ = "1.2e+17" ∧ text ⟨1, -5⟩ = "1e-05" := by
  decide +kernel

end Decimal
end NotebookHub
