import Mathlib.Data.Nat.Digits.Defs
import NotebookHub.Double

namespace NotebookHub

namespace Double

section Places

variable {u v : Nat}

/-- A number that fits is a whole number of last places of any number that is not larger. -/
theorem Fits.dvd (hv : Fits v) (hle : u.log2 ≤ v.log2) : lastPlace u ∣ v :=
  Nat.dvd_trans (Nat.pow_dvd_pow 2 (by omega)) hv

theorem log2_le_of_le (hu : u ≠ 0) (hle : u ≤ v) : u.log2 ≤ v.log2 :=
  (Nat.le_log2 (by omega)).mpr (Nat.le_trans (Nat.log2_self_le hu) hle)

theorem log2_mono (hle : u ≤ v) : u.log2 ≤ v.log2 := by
  by_cases hu : u = 0
  · simp [hu]
  · exact log2_le_of_le hu hle

theorem fits_two_pow (k : Nat) : Fits (2 ^ k) := by
  rw [Fits, lastPlace, Nat.pow_eq, Nat.log2_two_pow]
  exact Nat.pow_dvd_pow 2 (by omega)

/-- The numbers that fit and come after one are at least its last place away. -/
theorem Fits.gap (hu : Fits u) (hv : Fits v) (hlt : u < v) : u + lastPlace u ≤ v := by
  obtain ⟨a, ha⟩ := hu
  obtain ⟨b, hb⟩ := hv.dvd (log2_mono hlt.le)
  have hab : a < b := by
    rw [ha, hb] at hlt
    exact Nat.lt_of_mul_lt_mul_left hlt
  calc u + lastPlace u = lastPlace u * (a + 1) := by rw [Nat.mul_add, ← ha, Nat.mul_one]
    _ ≤ lastPlace u * b := Nat.mul_le_mul_left _ hab
    _ = v := hb.symm

/-- A last place more carries to the next power of two, or leaves the places where they are. -/
theorem Fits.next (hu : Fits u) : u + lastPlace u = 2 ^ (u.log2 + 1) ∨
    lastPlace (u + lastPlace u) = lastPlace u := by
  have hle := hu.gap (fits_two_pow _) Nat.lt_log2_self
  rcases Nat.eq_or_lt_of_le hle with heq | hlt
  · exact .inl heq
  · have hpos := lastPlace_pos u
    have hlog : (u + lastPlace u).log2 = u.log2 :=
      Nat.le_antisymm (Nat.lt_succ_iff.mp ((Nat.log2_lt (by omega)).mpr hlt)) (log2_mono (by omega))
    exact .inr (by rw [lastPlace, hlog, lastPlace])

theorem Fits.add_lastPlace (hu : Fits u) : Fits (u + lastPlace u) := by
  rcases hu.next with heq | hsame
  · rw [heq]
    exact fits_two_pow _
  · rw [Fits, hsame]
    exact Nat.dvd_add hu (Nat.dvd_refl _)

/-- Of two neighbours one is odd in its last place. -/
theorem Fits.odd_next (hu : Fits u) (heven : u / lastPlace u % 2 = 0) :
    (u + lastPlace u) / lastPlace (u + lastPlace u) % 2 = 1 := by
  have hpos := lastPlace_pos u
  obtain ⟨a, ha⟩ := hu
  have hquotient : u / lastPlace u = a := by
    conv_lhs => arg 1; rw [ha]
    exact Nat.mul_div_cancel_left a hpos
  have hnext : u + lastPlace u = lastPlace u * (a + 1) := by rw [Nat.mul_add, ← ha, Nat.mul_one]
  rw [hquotient] at heven
  rcases Fits.next ⟨a, ha⟩ with heq | hsame
  · -- the carry is from 2 ^ 53 - 1, which is odd, or all is below 2 ^ 53
    have hpower : lastPlace u * (a + 1) = lastPlace u * 2 ^ (u.log2 + 1 - (u.log2 - 52)) := by
      rw [← hnext, heq, lastPlace, Nat.pow_eq, ← Nat.pow_add]
      congr 1
      omega
    have ha1 : a + 1 = 2 ^ (u.log2 + 1 - (u.log2 - 52)) := Nat.eq_of_mul_eq_mul_left hpos hpower
    have hdvd : 2 ∣ a + 1 := by
      rw [ha1]
      exact dvd_pow_self 2 (by omega)
    omega
  · rw [hsame, hnext, Nat.mul_div_cancel_left _ hpos]
    omega

end Places

def distance (n d u : Nat) : Nat := (n - u * d) + (u * d - n)

/-- Of the numbers that fit `u` is the nearest to `n / d`; of two that are as near the one with an
even last place. -/
structure Nearest (n d u : Nat) : Prop where
  fits : Fits u
  near : ∀ v, Fits v → distance n d u ≤ distance n d v
  even : ∀ v, Fits v → v ≠ u → distance n d u = distance n d v → u / lastPlace u % 2 = 0

section Distances

variable {n d u v w : Nat}

/-- A number between two others that are as far away is nearer than either. -/
theorem distance_lt_of_between (hd : 0 < d) (huw : u < w) (hwv : w < v)
    (heq : distance n d u = distance n d v) : distance n d w < distance n d u := by
  have hu : u * d < w * d := Nat.mul_lt_mul_of_pos_right huw hd
  have hv : w * d < v * d := Nat.mul_lt_mul_of_pos_right hwv hd
  unfold distance at heq ⊢
  omega

theorem distance_lt_of_le (hd : 0 < d) (hvu : v < u) (hu : u ≤ n / d) :
    distance n d u < distance n d v := by
  have hlt : v * d < u * d := Nat.mul_lt_mul_of_pos_right hvu hd
  have hle : u * d ≤ n := (Nat.le_div_iff_mul_le hd).mp hu
  unfold distance
  omega

/-- Two numbers that are nearest are one: between neighbours the one with the even last place
counts. -/
theorem Nearest.unique (hd : 0 < d) (hu : Nearest n d u) (hv : Nearest n d v) : u = v := by
  have hne {u v : Nat} (hu : Nearest n d u) (hv : Nearest n d v) : ¬ u < v := by
    intro hlt
    have heq := Nat.le_antisymm (hu.near v hv.fits) (hv.near u hu.fits)
    have hnext := hu.fits.gap hv.fits hlt
    rcases Nat.eq_or_lt_of_le hnext with hadjacent | hbetween
    · have hodd := hu.fits.odd_next (hu.even v hv.fits (by omega) heq)
      rw [hadjacent] at hodd
      have heven := hv.even u hu.fits (by omega) heq.symm
      omega
    · have hpos := lastPlace_pos u
      have hcloser := distance_lt_of_between hd (by omega) hbetween heq
      exact absurd (hu.near _ hu.fits.add_lastPlace) (by omega)
  have hle := hne hu hv
  have hge := hne hv hu
  omega

/-- The rounded quotient is the whole number nearest to the quotient; of two the even one. -/
theorem roundedQuotient_near (hd : 0 < d) (k : Nat) :
    distance n d (roundedQuotient n d) ≤ distance n d k ∧
    (k ≠ roundedQuotient n d → distance n d (roundedQuotient n d) = distance n d k →
      roundedQuotient n d % 2 = 0) := by
  have hdiv : n / d * d + n % d = n := Nat.div_add_mod' n d
  have hmod := Nat.mod_lt n hd
  have hsucc : (n / d + 1) * d = n / d * d + d := Nat.succ_mul _ _
  have hlow : k ≤ n / d → k * d ≤ n / d * d := fun hk => Nat.mul_le_mul_right d hk
  have hlow' : k < n / d → k * d + d ≤ n / d * d := by
    intro hk
    rw [← Nat.succ_mul]
    exact Nat.mul_le_mul_right d hk
  have hhigh : n / d + 1 ≤ k → n / d * d + d ≤ k * d := by
    intro hk
    rw [← hsucc]
    exact Nat.mul_le_mul_right d hk
  have hhigh' : n / d + 1 < k → n / d * d + d + d ≤ k * d := by
    intro hk
    rw [← hsucc, ← Nat.succ_mul]
    exact Nat.mul_le_mul_right d hk
  unfold distance roundedQuotient
  split
  · rename_i hcmp
    rw [Nat.compare_eq_lt] at hcmp
    omega
  · rename_i hcmp
    rw [Nat.compare_eq_gt] at hcmp
    rw [hsucc]
    omega
  · rename_i hcmp
    rw [Nat.compare_eq_eq] at hcmp
    rcases Nat.mod_two_eq_zero_or_one (n / d) with hparity | hparity
    · rw [hparity, Nat.add_zero]
      omega
    · rw [hparity, hsucc]
      omega

end Distances

section Rounded

variable {n d : Nat}

/-- Rounding does not go below the leading place. -/
theorem pow_log2_le_rounded (hne : n / d ≠ 0) : 2 ^ (n / d).log2 ≤ rounded n d := by
  have hpower : 2 ^ (n / d).log2 =
      2 ^ ((n / d).log2 - ((n / d).log2 - 52)) * lastPlace (n / d) := by
    rw [lastPlace, Nat.pow_eq, ← Nat.pow_add]
    congr 1
    omega
  have hplaces : 2 ^ ((n / d).log2 - ((n / d).log2 - 52)) ≤ n / d / lastPlace (n / d) := by
    rw [Nat.le_div_iff_mul_le (lastPlace_pos _), ← hpower]
    exact Nat.log2_self_le hne
  have hquotient : n / (d * lastPlace (n / d)) ≤ roundedQuotient n (d * lastPlace (n / d)) := by
    unfold roundedQuotient
    split <;> omega
  rw [← Nat.div_div_eq_div_mul] at hquotient
  rw [hpower]
  exact Nat.mul_le_mul_right _ (by omega)

/-- Rounding carries to the next power of two, or leaves the places where they are. -/
theorem lastPlace_rounded : rounded n d = 2 ^ ((n / d).log2 + 1) ∨
    lastPlace (rounded n d) = lastPlace (n / d) := by
  rcases Nat.eq_or_lt_of_le (rounded_le n d) with heq | hlt
  · exact .inl heq
  right
  have hhigh : (rounded n d).log2 ≤ (n / d).log2 := by
    by_cases hzero : rounded n d = 0
    · simp [hzero]
    · exact Nat.lt_succ_iff.mp ((Nat.log2_lt hzero).mpr hlt)
  have hlow : (n / d).log2 ≤ (rounded n d).log2 := by
    by_cases hzero : n / d = 0
    · simp [hzero]
    · have hle := log2_mono (pow_log2_le_rounded hzero)
      rwa [Nat.log2_two_pow] at hle
  rw [lastPlace, lastPlace, Nat.le_antisymm hhigh hlow]

/-- A number that fits is a whole number of last places, or its leading place is less than that of
the quotient and so it is not the nearest. -/
theorem dvd_or_farther (hd : 0 < d) {v : Nat} (hv : Fits v) :
    lastPlace (n / d) ∣ v ∨
      ∃ w, lastPlace (n / d) ∣ w ∧ distance n d w < distance n d v := by
  by_cases hlog : (n / d).log2 ≤ v.log2
  · exact .inl (hv.dvd hlog)
  right
  have hne : n / d ≠ 0 := by
    rintro hzero
    simp [hzero] at hlog
  have hlt : v < 2 ^ (n / d).log2 := by
    by_cases hzero : v = 0
    · rw [hzero]
      exact Nat.two_pow_pos _
    · exact (Nat.log2_lt hzero).mp (by omega)
  exact ⟨2 ^ (n / d).log2, Nat.pow_dvd_pow 2 (by omega),
    distance_lt_of_le hd hlt (Nat.log2_self_le hne)⟩

/-- What is computed is the nearest number. -/
theorem nearest_rounded (hd : 0 < d) : Nearest n d (rounded n d) := by
  have hplace := lastPlace_pos (n / d)
  have hnear := roundedQuotient_near (n := n) (Nat.mul_pos hd hplace)
  have hscaled (k : Nat) : distance n d (lastPlace (n / d) * k) =
      distance n (d * lastPlace (n / d)) k := by
    unfold distance
    rw [Nat.mul_comm (lastPlace (n / d)) k, Nat.mul_assoc, Nat.mul_comm (lastPlace (n / d)) d]
  have hrounded : rounded n d = lastPlace (n / d) * roundedQuotient n (d * lastPlace (n / d)) :=
    Nat.mul_comm _ _
  have hmultiple (k : Nat) : distance n d (rounded n d) ≤ distance n d (lastPlace (n / d) * k) := by
    rw [hrounded, hscaled, hscaled]
    exact (hnear k).1
  refine ⟨fits_rounded n d, fun v hv => ?_, fun v hv hne heq => ?_⟩
  · rcases dvd_or_farther (n := n) hd hv with ⟨k, rfl⟩ | ⟨_, ⟨k, rfl⟩, hlt⟩
    · exact hmultiple k
    · exact Nat.le_of_lt (Nat.lt_of_le_of_lt (hmultiple k) hlt)
  · have heven : roundedQuotient n (d * lastPlace (n / d)) % 2 = 0 := by
      rcases dvd_or_farther (n := n) hd hv with ⟨k, rfl⟩ | ⟨_, ⟨k, rfl⟩, hlt⟩
      · rw [hrounded, hscaled, hscaled] at heq
        exact (hnear k).2 (fun hk => hne (by rw [hk, hrounded])) heq
      · have hle := hmultiple k
        omega
    rcases lastPlace_rounded (n := n) (d := d) with hcarry | hsame
    · rw [hcarry, lastPlace, Nat.pow_eq, Nat.log2_two_pow, Nat.pow_div (by omega) (by omega)]
      exact Nat.mod_eq_zero_of_dvd (dvd_pow_self 2 (by omega))
    · rwa [hsame, rounded, Nat.mul_div_cancel _ hplace]

theorem rounded_of_lt_half (hlt : 2 * n < d) : rounded n d = 0 := by
  have hdiv : n / d = 0 := Nat.div_eq_of_lt (by omega)
  have hmod : n % d = n := Nat.mod_eq_of_lt (by omega)
  have hcmp : compare (2 * n) d = .lt := by rwa [Nat.compare_eq_lt]
  simp [rounded, hdiv, lastPlace, roundedQuotient, hmod, hcmp]

end Rounded

section Decimals

theorem lt_pow_length_toDigits (n : Nat) : n < 10 ^ (Nat.toDigits 10 n).length := by
  induction n using Nat.strongRecOn with
  | ind n ih =>
    by_cases hn : n < 10
    · rw [Nat.toDigits_of_lt_base hn]
      simpa using hn
    · have hfront := ih (n / 10) (by omega)
      rw [Nat.toDigits_of_base_le (by omega) (by omega), List.length_append, List.length_singleton,
        Nat.pow_succ]
      omega

theorem pow_le_of_length_toDigits {n : Nat} (hn : n ≠ 0) :
    10 ^ ((Nat.toDigits 10 n).length - 1) ≤ n := by
  by_contra hlt
  have hpos := Nat.length_toDigits_pos (b := 10) (n := n)
  by_cases hone : (Nat.toDigits 10 n).length - 1 = 0
  · rw [hone] at hlt
    omega
  · have hle := Nat.toDigits_length 10 n _ (by omega) (Nat.lt_of_not_le hlt)
    omega

end Decimals

end Double

namespace Decimal

open Double

def numerator (x : Decimal) : Nat := x.mantissa * 10 ^ x.exponent.toNat * one

def denominator (x : Decimal) : Nat := 10 ^ (-x.exponent).toNat

/-- The double that the decimal stands for is the nearest one, or infinity if that is out of
range. -/
def Stands (x : Decimal) (negative : Bool) (y : Double) : Prop :=
  ∃ (units : Nat) (h : Nearest x.numerator x.denominator units), y = ofUnits negative units h.fits

theorem denominator_pos (x : Decimal) : 0 < x.denominator := Nat.pow_pos (by omega)

variable {x : Decimal} {k m : Nat}

/-- A decimal far below the least positive number is nearest to zero. -/
theorem rounded_of_low (hk : 2 * one < 10 ^ k) (hlow : x.mantissa = 0 ∨ x.pointPlace ≤ -k) :
    rounded x.numerator x.denominator = 0 := by
  apply rounded_of_lt_half
  rcases hlow with hzero | hplace
  · rw [numerator, hzero, Nat.zero_mul, Nat.zero_mul]
    exact x.denominator_pos
  · have hdigits := lt_pow_length_toDigits x.mantissa
    have hpos := Nat.length_toDigits_pos (b := 10) (n := x.mantissa)
    rw [pointPlace, digits] at hplace
    have hexp : x.exponent.toNat = 0 := by omega
    rw [numerator, hexp, Nat.pow_zero, Nat.mul_one]
    calc 2 * (x.mantissa * one) = x.mantissa * (2 * one) := by ring
      _ < 10 ^ (Nat.toDigits 10 x.mantissa).length * 10 ^ k := Nat.mul_lt_mul'' hdigits hk
      _ = 10 ^ ((Nat.toDigits 10 x.mantissa).length + k) := (Nat.pow_add _ _ _).symm
      _ ≤ x.denominator := Nat.pow_le_pow_right (by omega) (by omega)

/-- A decimal with so many digits before the point is out of range. -/
theorem bound_le_rounded (hm : bound = 2 ^ m) (hk : bound ≤ 10 ^ k * one) (hne : x.mantissa ≠ 0)
    (hplace : (k : Int) < x.pointPlace) : bound ≤ rounded x.numerator x.denominator := by
  have hdigits := pow_le_of_length_toDigits hne
  have hpos := Nat.length_toDigits_pos (b := 10) (n := x.mantissa)
  rw [pointPlace, digits] at hplace
  have hquotient : bound ≤ x.numerator / x.denominator := by
    rw [Nat.le_div_iff_mul_le x.denominator_pos]
    calc bound * x.denominator ≤ 10 ^ k * one * x.denominator := Nat.mul_le_mul_right _ hk
      _ = 10 ^ (k + (-x.exponent).toNat) * one := by rw [denominator, Nat.pow_add]; ring
      _ ≤ 10 ^ ((Nat.toDigits 10 x.mantissa).length - 1 + x.exponent.toNat) * one :=
        Nat.mul_le_mul_right _ (Nat.pow_le_pow_right (by omega) (by omega))
      _ = 10 ^ ((Nat.toDigits 10 x.mantissa).length - 1) * 10 ^ x.exponent.toNat * one := by
        rw [Nat.pow_add]
      _ ≤ x.numerator := Nat.mul_le_mul_right _ (Nat.mul_le_mul_right _ hdigits)
  have hlog : m ≤ (x.numerator / x.denominator).log2 := by
    have hle := log2_mono hquotient
    rwa [hm, Nat.log2_two_pow] at hle
  have hne : x.numerator / x.denominator ≠ 0 := by
    intro hzero
    rw [hzero] at hquotient
    exact absurd hquotient (Nat.not_le.mpr bound_pos)
  rw [hm]
  exact Nat.le_trans (Nat.pow_le_pow_right (by omega) hlog) (pow_log2_le_rounded hne)

/-- A decimal is read as the double that it stands for. -/
theorem Stands.ofDecimal_eq {x : Decimal} {negative : Bool} {y : Double} (h : x.Stands negative y) :
    ofDecimal negative x = y := by
  obtain ⟨units, hnear, hy⟩ := h
  rw [hy]
  obtain rfl := hnear.unique x.denominator_pos (nearest_rounded x.denominator_pos)
  unfold ofDecimal
  split
  · rename_i hlow
    have hzero : rounded x.numerator x.denominator = 0 :=
      rounded_of_low (k := 324) (by decide +kernel) (hlow.imp_right fun hplace => by omega)
    simp only [hzero]
    rw [ofUnits, dif_pos bound_pos, zero]
  · rename_i hlow
    split
    · rename_i hhigh
      have hout : bound ≤ rounded x.numerator x.denominator :=
        bound_le_rounded (k := 309) (m := 2098) (by decide +kernel) (by decide +kernel)
          (fun hzero => hlow (.inl hzero)) hhigh
      rw [ofUnits, dif_neg (Nat.not_lt.mpr hout)]
    · rfl

theorem stands_iff {x : Decimal} {negative : Bool} {y : Double} :
    x.Stands negative y ↔ ofDecimal negative x = y := by
  refine ⟨Stands.ofDecimal_eq, ?_⟩
  rintro rfl
  have hnear := nearest_rounded (n := x.numerator) x.denominator_pos
  have hstands : x.Stands negative (ofUnits negative _ hnear.fits) := ⟨_, hnear, rfl⟩
  rwa [hstands.ofDecimal_eq]

end Decimal
end NotebookHub
