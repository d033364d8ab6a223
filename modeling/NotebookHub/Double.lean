import NotebookHub.Decimal

namespace NotebookHub

namespace Double

/-- The value of the last of the 53 binary places that a number of this size has. -/
def lastPlace (units : Nat) : Nat := Nat.pow 2 (units.log2 - 52)

theorem lastPlace_pos (units : Nat) : 0 < lastPlace units := Nat.two_pow_pos _

/-- Whether the binary places behind the first 53 are zeros. -/
def Fits (units : Nat) : Prop := lastPlace units ∣ units

instance : DecidablePred Fits := fun units => inferInstanceAs (Decidable (lastPlace units ∣ units))

/-- The quotient to the nearest whole number; of two that are as near the even one. -/
def roundedQuotient (n d : Nat) : Nat :=
  match compare (2 * (n % d)) d with
  | .lt => n / d
  | .gt => n / d + 1
  | .eq => n / d + n / d % 2

/-- `n / d` to 53 binary places. -/
def rounded (n d : Nat) : Nat :=
  roundedQuotient n (d * lastPlace (n / d)) * lastPlace (n / d)

theorem roundedQuotient_le (n d : Nat) : roundedQuotient n d ≤ n / d + 1 := by
  unfold roundedQuotient
  split <;> omega

/-- Rounding carries at most to the next power of two. -/
theorem rounded_le (n d : Nat) : rounded n d ≤ Nat.pow 2 ((n / d).log2 + 1) := by
  have hquotient := roundedQuotient_le n (d * lastPlace (n / d))
  rw [← Nat.div_div_eq_div_mul] at hquotient
  have hsize : n / d < 2 ^ ((n / d).log2 + 1) := Nat.lt_log2_self
  have hpower : 2 ^ ((n / d).log2 + 1) =
      2 ^ ((n / d).log2 + 1 - ((n / d).log2 - 52)) * lastPlace (n / d) := by
    rw [lastPlace, Nat.pow_eq, ← Nat.pow_add]
    congr 1
    omega
  have hplaces : n / d / lastPlace (n / d) < 2 ^ ((n / d).log2 + 1 - ((n / d).log2 - 52)) := by
    rw [Nat.div_lt_iff_lt_mul (lastPlace_pos _), ← hpower]
    exact hsize
  rw [Nat.pow_eq, hpower]
  exact Nat.mul_le_mul_right _ (by omega)

theorem fits_rounded (n d : Nat) : Fits (rounded n d) := by
  have hle := rounded_le n d
  rcases Nat.eq_or_lt_of_le hle with heq | hlt
  · rw [Fits, lastPlace, heq, Nat.pow_eq, Nat.pow_eq, Nat.log2_two_pow]
    exact Nat.pow_dvd_pow 2 (by omega)
  · have hlog : (rounded n d).log2 ≤ (n / d).log2 := by
      by_cases hzero : rounded n d = 0
      · simp [hzero]
      · exact Nat.lt_succ_iff.mp ((Nat.log2_lt hzero).mpr hlt)
    exact Nat.dvd_trans (Nat.pow_dvd_pow 2 (by omega)) (Nat.dvd_mul_left _ _)

/-- How many binary places behind the point the least positive number has. -/
def places : Nat := 1074

def one : Nat := Nat.pow 2 places

def bound : Nat := Nat.pow 2 (places + 1024)

theorem bound_pos : 0 < bound := by decide +kernel

end Double

/-- A binary floating-point number of 64 bits; a finite one by how often it holds the least positive
one. -/
inductive Double
  | finite (negative : Bool) (units : Nat) (fits : Double.Fits units) (low : units < Double.bound)
  | infinite (negative : Bool)
  | nan
  deriving DecidableEq, Repr

namespace Double

def ofUnits (negative : Bool) (units : Nat) (fits : Fits units) : Double :=
  if low : units < bound then .finite negative units fits low else .infinite negative

def zero (negative : Bool) : Double := .finite negative 0 (Nat.dvd_zero _) bound_pos

/-- The number that a decimal is read as. Decimals far out of range need no division. -/
def ofDecimal (negative : Bool) (d : Decimal) : Double :=
  if d.mantissa = 0 ∨ d.pointPlace < -323 then zero negative
  else if 309 < d.pointPlace then .infinite negative
  else
    ofUnits negative _
      (fits_rounded (d.mantissa * Nat.pow 10 d.exponent.toNat * one)
        (Nat.pow 10 (-d.exponent).toNat))

def truncated? : Double → Option Int
  | .finite negative units _ _ =>
    some (if negative then -(units / one : Nat) else (units / one : Nat))
  | _ => none

def whole? : Double → Option Int
  | .finite negative units fits low =>
    if units % one = 0 then (Double.finite negative units fits low).truncated? else none
  | _ => none

def isZero : Double → Bool
  | .finite _ units _ _ => units = 0
  | _ => false

/-- How many decimal places behind the point the least positive number has up to its first digit. -/
def decimalPlaces : Nat := 324

def pointPlace (units : Nat) : Int :=
  (Nat.toDigits 10 (units * Nat.pow 10 decimalPlaces / one)).length - decimalPlaces

def holds (units : Nat) : Double → Bool
  | .finite _ u _ _ => u = units
  | _ => false

/-- The decimal of `count` digits that is read as the number, if there is one; of two the nearer. -/
def decimalOf? (units count : Nat) : Option Decimal :=
  let exponent := pointPlace units - count
  let n := units * Nat.pow 10 (-exponent).toNat
  let d := one * Nat.pow 10 exponent.toNat
  let stands (m : Nat) : Bool := (ofDecimal false ⟨m, exponent⟩).holds units
  let near := roundedQuotient n d
  let far := if near = n / d then n / d + 1 else n / d
  if stands near then some ⟨near, exponent⟩
  else if stands far then some ⟨far, exponent⟩
  else none

/-- The decimal of the fewest digits that is read as the number. Seventeen are enough for all. -/
def shortest (units : Nat) : Decimal :=
  ((List.range 17).findSome? fun i => decimalOf? units (i + 1)).getD ⟨0, 0⟩

def spelled (infinity nan : String) : Double → String
  | .finite negative units _ _ => (if negative then "-" else "") ++ (shortest units).text
  | .infinite negative => (if negative then "-" else "") ++ infinity
  | .nan => nan

example : (ofDecimal true ⟨10000000000000000001, -20⟩).spelled "inf" "nan" = "-0.1" := by
  decide +kernel
example : ofDecimal false ⟨1, 400⟩ = .infinite false := by decide +kernel

end Double
end NotebookHub
