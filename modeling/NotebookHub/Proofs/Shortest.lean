import NotebookHub.Proofs.Rounding

namespace NotebookHub

namespace Double

section Gaps

variable {u v : Nat}

theorem pow_le_lastPlace (u : Nat) : 2 ^ (u.log2 + 1) ≤ 2 ^ 53 * lastPlace u := by
  rw [lastPlace, Nat.pow_eq, ← Nat.pow_add]
  exact Nat.pow_le_pow_right (by omega) (by omega)

/-- Two numbers that fit are apart by at least one part in `2 ^ 53`. -/
theorem Fits.apart (hu : Fits u) (hv : Fits v) (hne : u ≠ v) :
    u ≤ 2 ^ 53 * ((u - v) + (v - u)) := by
  rcases Nat.lt_or_gt_of_ne hne with hlt | hlt
  · have hgap := hu.gap hv hlt
    calc u ≤ 2 ^ (u.log2 + 1) := Nat.lt_log2_self.le
      _ ≤ 2 ^ 53 * lastPlace u := pow_le_lastPlace u
      _ ≤ 2 ^ 53 * ((u - v) + (v - u)) := Nat.mul_le_mul_left _ (by omega)
  · have hgap := hv.gap hu hlt
    by_cases hnear : u ≤ 2 ^ (v.log2 + 1)
    · calc u ≤ 2 ^ (v.log2 + 1) := hnear
        _ ≤ 2 ^ 53 * lastPlace v := pow_le_lastPlace v
        _ ≤ 2 ^ 53 * ((u - v) + (v - u)) := Nat.mul_le_mul_left _ (by omega)
    · -- the power of two between them is a place of its own away from `u`
      have hpower := (fits_two_pow (v.log2 + 1)).gap hu (by omega)
      have hplace := pow_le_lastPlace (2 ^ (v.log2 + 1))
      rw [Nat.log2_two_pow, Nat.pow_succ] at hplace
      have hbelow : v < 2 ^ (v.log2 + 1) := Nat.lt_log2_self
      omega

end Gaps

/-- The rounded quotient is at most half of a whole away. -/
theorem two_mul_distance_le {n d : Nat} (hd : 0 < d) :
    2 * distance n d (roundedQuotient n d) ≤ d := by
  have hlow := (roundedQuotient_near (n := n) hd (n / d)).1
  have hhigh := (roundedQuotient_near (n := n) hd (n / d + 1)).1
  have hdiv : n / d * d + n % d = n := Nat.div_add_mod' n d
  have hmod := Nat.mod_lt n hd
  have hsucc : (n / d + 1) * d = n / d * d + d := Nat.succ_mul _ _
  have hbelow : distance n d (n / d) = n % d := by
    unfold distance
    omega
  have habove : distance n d (n / d + 1) = d - n % d := by
    unfold distance
    omega
  omega

section Digits

variable {units : Nat} {a b : Nat}

/-- A number has a digit other than zero at its leading place. -/
theorem exists_pointPlace (hne : units ≠ 0) :
    ∃ digits : Nat, pointPlace units = digits - decimalPlaces ∧ 0 < digits ∧
      10 ^ (digits - 1) * one ≤ units * 10 ^ decimalPlaces := by
  have hone : one ≤ 10 ^ decimalPlaces := by decide +kernel
  have hone' : 0 < one := by decide +kernel
  have hle : one ≤ units * 10 ^ decimalPlaces :=
    Nat.le_trans hone (Nat.le_mul_of_pos_left _ (by omega))
  have hdigits := pow_le_of_length_toDigits (Nat.div_pos hle hone').ne'
  rw [Nat.le_div_iff_mul_le hone'] at hdigits
  exact ⟨_, by rw [pointPlace, Nat.pow_eq], Nat.length_toDigits_pos, hdigits⟩

/-- Seventeen digits from the first one on leave less than one part in `2 ^ 53`. -/
theorem pow_mul_le (hne : units ≠ 0) (hab : (a : Int) - b = pointPlace units - 17) :
    10 ^ 16 * (one * 10 ^ a) ≤ units * 10 ^ b := by
  obtain ⟨digits, hplace, hpos, hdigits⟩ := exists_pointPlace hne
  have hsplit : digits - 1 + b = a + 16 + decimalPlaces := by omega
  apply Nat.le_of_mul_le_mul_right (c := 10 ^ decimalPlaces) ?_ (Nat.pow_pos (by omega))
  calc 10 ^ 16 * (one * 10 ^ a) * 10 ^ decimalPlaces = one * 10 ^ (a + 16 + decimalPlaces) := by
        rw [Nat.pow_add, Nat.pow_add]
        ring
    _ = 10 ^ (digits - 1) * one * 10 ^ b := by
        rw [← hsplit, Nat.pow_add]
        ring
    _ ≤ units * 10 ^ decimalPlaces * 10 ^ b := Nat.mul_le_mul_right _ hdigits
    _ = units * 10 ^ b * 10 ^ decimalPlaces := by ring

end Digits

/-- A decimal of seventeen digits that is nearest to a number has no number nearer to it. -/
theorem nearest_of_seventeen {units : Nat} (hfits : Fits units) (hne : units ≠ 0) {a b : Nat}
    (hab : (a : Int) - b = pointPlace units - 17) :
    Nearest (roundedQuotient (units * 10 ^ b) (one * 10 ^ a) * 10 ^ a * one) (10 ^ b) units := by
  have hd : 0 < one * 10 ^ a := Nat.mul_pos (by decide +kernel) (Nat.pow_pos (by omega))
  have hplace := pow_mul_le hne hab
  have hhalf := two_mul_distance_le (n := units * 10 ^ b) hd
  have hmantissa : roundedQuotient (units * 10 ^ b) (one * 10 ^ a) * 10 ^ a * one =
      roundedQuotient (units * 10 ^ b) (one * 10 ^ a) * (one * 10 ^ a) := by ring
  rw [hmantissa]
  have hnear (v : Nat) (hv : Fits v) (hother : v ≠ units) :
      distance (roundedQuotient (units * 10 ^ b) (one * 10 ^ a) * (one * 10 ^ a)) (10 ^ b) units <
        distance (roundedQuotient (units * 10 ^ b) (one * 10 ^ a) * (one * 10 ^ a)) (10 ^ b) v := by
    have hapart : units * 10 ^ b ≤
        2 ^ 53 * ((units * 10 ^ b - v * 10 ^ b) + (v * 10 ^ b - units * 10 ^ b)) := by
      rw [← Nat.sub_mul, ← Nat.sub_mul, ← Nat.add_mul, ← Nat.mul_assoc]
      exact Nat.mul_le_mul_right _ (hfits.apart hv hother.symm)
    unfold distance at hhalf ⊢
    omega
  refine ⟨hfits, fun v hv => ?_, fun v hv hother heq => ?_⟩
  · by_cases hsame : v = units
    · rw [hsame]
    · exact (hnear v hv hsame).le
  · exact absurd heq (hnear v hv hother).ne

section Reading

variable {units count : Nat} {negative : Bool} {x : Decimal}

theorem holds_ofUnits (fits : Fits units) (low : units < bound) :
    (ofUnits negative units fits).holds units = true := by
  rw [ofUnits, dif_pos low]
  exact decide_eq_true rfl

theorem eq_of_holds_ofUnits {u : Nat} {fits : Fits u}
    (h : (ofUnits negative u fits).holds units = true) : u = units := by
  rw [ofUnits] at h
  split at h
  · exact of_decide_eq_true h
  · cases h

theorem ofDecimal_of_nearest (h : Nearest x.numerator x.denominator units) :
    ofDecimal negative x = ofUnits negative units h.fits :=
  Decimal.Stands.ofDecimal_eq ⟨units, h, rfl⟩

/-- The sign has no part in rounding. -/
theorem ofDecimal_of_holds (fits : Fits units) (h : (ofDecimal false x).holds units = true) :
    ofDecimal negative x = ofUnits negative units fits := by
  have hnear := nearest_rounded (n := x.numerator) x.denominator_pos
  rw [ofDecimal_of_nearest hnear] at h
  obtain rfl := eq_of_holds_ofUnits h
  exact ofDecimal_of_nearest hnear

/-- Seventeen digits are always enough. -/
theorem isSome_decimalOf? (fits : Fits units) (low : units < bound) (hne : units ≠ 0) :
    (decimalOf? units 17).isSome = true := by
  have hnear := nearest_of_seventeen fits hne (a := (pointPlace units - (17 : Nat)).toNat)
    (b := (-(pointPlace units - (17 : Nat))).toNat) (by omega)
  unfold decimalOf?
  dsimp only
  generalize hm : roundedQuotient (units * Nat.pow 10 (-(pointPlace units - (17 : Nat))).toNat)
    (one * Nat.pow 10 (pointPlace units - (17 : Nat)).toNat) = m
  rw [Nat.pow_eq, Nat.pow_eq] at hm
  rw [hm] at hnear
  have hread : (ofDecimal false ⟨m, pointPlace units - (17 : Nat)⟩).holds units = true := by
    have hnear' : Nearest (Decimal.numerator ⟨m, pointPlace units - (17 : Nat)⟩)
        (Decimal.denominator ⟨m, pointPlace units - (17 : Nat)⟩) units := by
      rw [Decimal.numerator, Decimal.denominator]
      exact hnear
    rw [ofDecimal_of_nearest hnear']
    exact holds_ofUnits fits low
  rw [if_pos hread]
  rfl

/-- Only decimals that are read as the number are taken. -/
theorem holds_of_decimalOf? (h : decimalOf? units count = some x) :
    (ofDecimal false x).holds units = true := by
  unfold decimalOf? at h
  dsimp only at h
  split at h
  · rename_i hnear
    obtain rfl := Option.some.inj h
    exact hnear
  · obtain ⟨hfar, hx⟩ := Option.ite_none_right_eq_some.mp h
    obtain rfl := Option.some.inj hx
    exact hfar

theorem holds_shortest (fits : Fits units) (low : units < bound) :
    (ofDecimal false (shortest units)).holds units = true := by
  by_cases hzero : units = 0
  · rw [hzero]
    decide +kernel
  · have hsome : ((List.range 17).findSome? fun i => decimalOf? units (i + 1)).isSome = true :=
      List.findSome?_isSome_iff.mpr ⟨16, by simp, isSome_decimalOf? fits low hzero⟩
    obtain ⟨x, hx⟩ := Option.isSome_iff_exists.mp hsome
    obtain ⟨i, _, hi⟩ := List.exists_of_findSome?_eq_some hx
    rw [shortest, hx, Option.getD_some]
    exact holds_of_decimalOf? hi

/-- What is spelled of a finite number is read as that number. -/
theorem ofDecimal_shortest (negative : Bool) (fits : Fits units) (low : units < bound) :
    ofDecimal negative (shortest units) = .finite negative units fits low := by
  rw [ofDecimal_of_holds fits (holds_shortest fits low), ofUnits, dif_pos low]

end Reading

end Double
end NotebookHub
