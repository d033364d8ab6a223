import NotebookHub.Uri.Parts

namespace NotebookHub.Uri

section Marks

variable {p : Char → Bool} {c : Char}

/-- A character that ends a run hides what follows it. -/
theorem takeWhile_append_end (hc : p c = false) (s t : List Char) :
    (s ++ c :: t).takeWhile p = s.takeWhile p := by
  induction s with
  | nil => simp [hc]
  | cons d s ih => simp only [List.cons_append, List.takeWhile_cons, ih]

theorem dropWhile_append_end (hc : p c = false) (s t : List Char) :
    (s ++ c :: t).dropWhile p = s.dropWhile p ++ c :: t := by
  induction s with
  | nil => simp [hc]
  | cons d s ih =>
    simp only [List.cons_append, List.dropWhile_cons, ih]
    split <;> rfl

end Marks

def untabbed (s : List Char) : List Char := s.filter fun c => c ≠ '\t' && c ≠ '\r' && c ≠ '\n'

def afterScheme (s : List Char) : Except Error (List Char × List Char) := do
  let (authority, rest) := cutAuthority s
  checkAuthority authority
  return (authority, rest.takeWhile fun c => c ≠ '#' && c ≠ '?')

theorem parts_eq (s : List Char) : parts s = (afterScheme (cutScheme (tidy s)).2).map fun q =>
    ⟨(cutScheme (tidy s)).1, q.1, q.2⟩ := by
  simp only [parts, afterScheme]
  cases checkAuthority (cutAuthority (cutScheme (tidy s)).2).1 <;> rfl

/-- A class without control characters and blanks has only what stands behind them. -/
theorem visible {p : Char → Bool} (hp : ∀ n : Fin 0x21, p (Char.ofNat n.val) = false) {c : Char}
    (hc : p c = true) : 0x20 < c.toNat := by
  refine Nat.lt_of_not_le fun hle => ?_
  have hnone := hp ⟨c.toNat, Nat.lt_succ_of_le hle⟩
  rw [Char.ofNat_toNat, hc] at hnone
  cases hnone

theorem untabbed_of_visible {s : List Char} (hs : ∀ c ∈ s, 0x20 < c.toNat) : untabbed s = s := by
  refine List.filter_eq_self.mpr fun c hc => ?_
  have hne {d : Char} (hd : d.toNat ≤ 0x20) : c ≠ d := by
    rintro rfl
    exact absurd (hs _ hc) (Nat.not_lt.mpr hd)
  simp [hne (d := '\t') (by decide), hne (d := '\r') (by decide), hne (d := '\n') (by decide)]

section Schemes

variable {scheme : List Char} (h : isSchemeName scheme = true) (s : List Char)

include h

theorem isSchemeChar_of_mem {c : Char} (hc : c ∈ scheme) : isSchemeChar c = true := by
  cases scheme with
  | nil => cases h
  | cons d ds =>
    simp only [isSchemeName, Bool.and_eq_true] at h
    exact List.all_eq_true.mp h.2 c hc

theorem tidy_scheme : tidy (scheme ++ ':' :: s) = scheme ++ ':' :: untabbed s := by
  have hvisible : ∀ c ∈ scheme, 0x20 < c.toNat := fun c hc =>
    visible (p := isSchemeChar) (by decide) (isSchemeChar_of_mem h hc)
  have hfront : (scheme ++ ':' :: s).dropWhile (fun c => c.toNat ≤ 0x20) = scheme ++ ':' :: s := by
    cases scheme with
    | nil => cases h
    | cons c cs =>
      rw [List.cons_append, List.dropWhile_cons_of_neg (by simpa using hvisible c (by simp))]
  rw [tidy, hfront, List.filter_append, List.filter_cons_of_pos (by decide)]
  exact congrArg (· ++ ':' :: untabbed s) (untabbed_of_visible hvisible)

theorem cutScheme_scheme : cutScheme (scheme ++ ':' :: s) = (scheme.map Char.toLower, s) := by
  have hname : ∀ c ∈ scheme, decide (c ≠ ':') = true := by
    intro c hc
    refine decide_eq_true ?_
    rintro rfl
    exact absurd (isSchemeChar_of_mem h hc) (by decide)
  have htake : (scheme ++ ':' :: s).takeWhile (· ≠ ':') = scheme := by
    rw [List.takeWhile_append_of_pos hname]
    simp
  have hdrop : (scheme ++ ':' :: s).dropWhile (· ≠ ':') = ':' :: s := by
    rw [List.dropWhile_append_of_pos hname]
    simp
  simp only [cutScheme, hdrop, htake, h, if_true]

/-- A scheme that is written out is the scheme, and leaves the rest to itself. -/
theorem parts_of_scheme : parts (scheme ++ ':' :: s) =
    (afterScheme (untabbed s)).map fun q => ⟨scheme.map Char.toLower, q.1, q.2⟩ := by
  rw [parts_eq, tidy_scheme h, cutScheme_scheme h]

end Schemes

theorem cutAuthority_fragment (s f : List Char) :
    cutAuthority (s ++ '#' :: f) = ((cutAuthority s).1, (cutAuthority s).2 ++ '#' :: f) := by
  fun_cases cutAuthority s with
  | case1 s =>
    have hend : (!endsAuthority '#') = false := by decide
    simp only [List.cons_append, cutAuthority, takeWhile_append_end (p := (!endsAuthority ·)) hend,
      dropWhile_append_end (p := (!endsAuthority ·)) hend]
  | case2 s hs =>
    rw [cutAuthority]
    intro t ht
    match s with
    | [] | [_] => simp at ht
    | c :: d :: s =>
      simp only [List.cons_append, List.cons.injEq] at ht
      exact hs s (by rw [ht.1, ht.2.1])

theorem afterScheme_fragment (s f : List Char) : afterScheme (s ++ '#' :: f) = afterScheme s := by
  have hend : ('#' ≠ '#' && '#' ≠ '?') = false := by decide
  simp only [afterScheme, cutAuthority_fragment,
    takeWhile_append_end (p := fun c => c ≠ '#' && c ≠ '?') hend]

end NotebookHub.Uri
