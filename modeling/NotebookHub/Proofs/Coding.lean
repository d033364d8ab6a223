import Mathlib.Data.List.TakeWhile
import NotebookHub.Uri.Percent

namespace NotebookHub

namespace Utf8

theorem follow_cons {b low high : Nat} (acc n : Nat) (bs : List Nat) (hl : low ≤ b)
    (hh : b ≤ high) :
    follow acc (n + 1) low high (b :: bs) = follow (acc * 64 + (b - 0x80)) n 0x80 0xBF bs := by
  simp [follow, hl, hh]

/-- A leading octet of two announces one octet of any content. -/
theorem lead?_two {n : Nat} (hl : 0x80 ≤ n) (hh : n < 0x800) :
    lead? (0xC0 + n / 64) = some ⟨n / 64, 1, 0x80, 0xBF⟩ := by
  have h1 : ¬ 0xC0 + n / 64 < 0x80 := by omega
  have h2 : ¬ 0xC0 + n / 64 < 0xC2 := by omega
  have h3 : 0xC0 + n / 64 < 0xE0 := by omega
  simp only [lead?, if_neg h1, if_neg h2, if_pos h3, Nat.add_sub_cancel_left]

/-- The bounds of the second octet keep out what is no character. -/
theorem lead?_three {n : Nat} (hl : 0x800 ≤ n) (hh : n < 0x10000) (hs : n < 0xD800 ∨ 0xDFFF < n) :
    ∃ low high, lead? (0xE0 + n / 4096) = some ⟨n / 4096, 2, low, high⟩ ∧
      low ≤ 0x80 + n / 64 % 64 ∧ 0x80 + n / 64 % 64 ≤ high := by
  have h1 : ¬ 0xE0 + n / 4096 < 0x80 := by omega
  have h2 : ¬ 0xE0 + n / 4096 < 0xC2 := by omega
  have h3 : ¬ 0xE0 + n / 4096 < 0xE0 := by omega
  simp only [lead?, if_neg h1, if_neg h2, if_neg h3]
  by_cases h4 : 0xE0 + n / 4096 = 0xE0
  · have hn : n / 4096 = 0 := by omega
    exact ⟨0xA0, 0xBF, by simp [hn], by omega, by omega⟩
  by_cases h5 : 0xE0 + n / 4096 = 0xED
  · have hn : n / 4096 = 13 := by omega
    exact ⟨0x80, 0x9F, by simp [hn], by omega, by omega⟩
  · have h6 : 0xE0 + n / 4096 < 0xF0 := by omega
    exact ⟨0x80, 0xBF, by simp only [if_neg h4, if_neg h5, if_pos h6, Nat.add_sub_cancel_left],
      by omega, by omega⟩

theorem lead?_four {n : Nat} (hl : 0x10000 ≤ n) (hh : n < 0x110000) :
    ∃ low high, lead? (0xF0 + n / 262144) = some ⟨n / 262144, 3, low, high⟩ ∧
      low ≤ 0x80 + n / 4096 % 64 ∧ 0x80 + n / 4096 % 64 ≤ high := by
  have h1 : ¬ 0xF0 + n / 262144 < 0x80 := by omega
  have h2 : ¬ 0xF0 + n / 262144 < 0xC2 := by omega
  have h3 : ¬ 0xF0 + n / 262144 < 0xE0 := by omega
  have h4 : ¬ 0xF0 + n / 262144 = 0xE0 := by omega
  have h5 : ¬ 0xF0 + n / 262144 = 0xED := by omega
  have h6 : ¬ 0xF0 + n / 262144 < 0xF0 := by omega
  simp only [lead?, if_neg h1, if_neg h2, if_neg h3, if_neg h4, if_neg h5, if_neg h6]
  by_cases h7 : 0xF0 + n / 262144 = 0xF0
  · have hn : n / 262144 = 0 := by omega
    exact ⟨0x90, 0xBF, by simp [hn], by omega, by omega⟩
  by_cases h8 : 0xF0 + n / 262144 < 0xF4
  · exact ⟨0x80, 0xBF, by simp only [if_neg h7, if_pos h8, Nat.add_sub_cancel_left],
      by omega, by omega⟩
  · have hn : n / 262144 = 4 := by omega
    exact ⟨0x80, 0x8F, by simp [hn], by omega, by omega⟩

theorem decode_cons {b : Nat} {l : Lead} (bs : List Nat) (h : lead? b = some l) :
    decode (b :: bs) = (follow l.share l.follow l.low l.high bs).1.map Char.ofNat ::
      decode (follow l.share l.follow l.low l.high bs).2 := by
  rw [decode, h]

theorem decode_encodeChar (c : Char) (bs : List Nat) :
    decode (encodeChar c ++ bs) = some c :: decode bs := by
  have hv : c.toNat < 0xD800 ∨ 0xDFFF < c.toNat ∧ c.toNat < 0x110000 := c.valid
  have hc : Char.ofNat c.toNat = c := Char.ofNat_toNat c
  generalize hn : c.toNat = n at hv hc
  simp only [encodeChar, hn]
  split
  · rename_i h1
    have hlead : lead? n = some ⟨n, 0, 0, 0⟩ := by simp [lead?, h1]
    simp [decode_cons bs hlead, follow, hc]
  · rename_i h1
    split
    · rename_i h2
      have hn' : n / 64 * 64 + (0x80 + n % 64 - 0x80) = n := by omega
      rw [List.cons_append, decode_cons _ (lead?_two (by omega) h2)]
      simp only [List.cons_append, List.nil_append]
      rw [follow_cons _ _ _ (by omega) (by omega), hn']
      simp [follow, hc]
    · rename_i h2
      split
      · rename_i h3
        obtain ⟨low, high, hlead, hlow, hhigh⟩ := lead?_three (n := n) (by omega) h3 (by omega)
        have hn' :
            (n / 4096 * 64 + (0x80 + n / 64 % 64 - 0x80)) * 64 + (0x80 + n % 64 - 0x80) = n := by
          omega
        rw [List.cons_append, decode_cons _ hlead]
        simp only [List.cons_append, List.nil_append]
        rw [follow_cons _ _ _ hlow hhigh, follow_cons _ _ _ (by omega) (by omega), hn']
        simp [follow, hc]
      · rename_i h3
        obtain ⟨low, high, hlead, hlow, hhigh⟩ := lead?_four (n := n) (by omega) (by omega)
        have hn' : ((n / 262144 * 64 + (0x80 + n / 4096 % 64 - 0x80)) * 64 +
            (0x80 + n / 64 % 64 - 0x80)) * 64 + (0x80 + n % 64 - 0x80) = n := by omega
        rw [List.cons_append, decode_cons _ hlead]
        simp only [List.cons_append, List.nil_append]
        rw [follow_cons _ _ _ hlow hhigh, follow_cons _ _ _ (by omega) (by omega),
          follow_cons _ _ _ (by omega) (by omega), hn']
        simp [follow, hc]

theorem decode_encode (s : List Char) : decode (encode s) = s.map some := by
  induction s with
  | nil => simp [encode, decode]
  | cons c s ih =>
    have he : encode (c :: s) = encodeChar c ++ encode s := by simp [encode]
    rw [he, decode_encodeChar, ih, List.map_cons]

theorem decodeLossy_encode (s : List Char) : decodeLossy (encode s) = s := by
  simp [decodeLossy, decode_encode, Function.comp_def]

theorem lt_of_mem_encodeChar {c : Char} {b : Nat} (h : b ∈ encodeChar c) : b < 256 := by
  have hv : c.toNat < 0xD800 ∨ 0xDFFF < c.toNat ∧ c.toNat < 0x110000 := c.valid
  simp only [encodeChar] at h
  split at h
  · simp at h
    omega
  split at h
  · simp at h
    omega
  split at h <;>
  · simp at h
    omega

end Utf8

namespace Uri

theorem isSafe_ascii {c : Char} (h : isSafe c = true) : c.toNat < 128 := by
  have hsafe : isSafe c =
    (c.isUpper || c.isLower || c.isDigit || c == '_' || c == '.' || c == '-' ||
      c == '~' || c == '/') := rfl
  have hupper : c.isUpper = decide ('A'.val ≤ c.val ∧ c.val ≤ 'Z'.val) := rfl
  have hlower : c.isLower = (decide ('a'.val ≤ c.val) && decide (c.val ≤ 'z'.val)) := rfl
  have hdigit : c.isDigit = (decide ('0'.val ≤ c.val) && decide (c.val ≤ '9'.val)) := rfl
  rw [hsafe, hupper, hlower, hdigit] at h
  simp only [Bool.or_eq_true, Bool.and_eq_true, decide_eq_true_eq, beq_iff_eq] at h
  rcases h with ((((((h | h) | h) | h) | h) | h) | h) | h
  all_goals first
    | (subst h; decide)
    | (have h1 := UInt32.le_iff_toNat_le.mp h.2
       exact Nat.lt_of_le_of_lt h1 (by decide))

theorem hexValue?_hexUpper {n : Nat} (h : n < 16) : Text.hexValue? (Text.hexUpper n) = some n := by
  have hall : ∀ m : Fin 16, Text.hexValue? (Text.hexUpper m.val) = some m.val := by decide
  exact hall ⟨n, h⟩

theorem isSafe_hexUpper {n : Nat} (h : n < 16) : isSafe (Text.hexUpper n) = true := by
  have hall : ∀ m : Fin 16, isSafe (Text.hexUpper m.val) = true := by decide
  exact hall ⟨n, h⟩

theorem octets_escape {o : Nat} (h : o < 256) (rest : List Char) :
    octets (escape o ++ rest) = o :: octets rest := by
  have h1 : o / 16 < 16 := by omega
  have h2 : o % 16 < 16 := by omega
  simp only [escape, List.cons_append, List.nil_append, octets, hexValue?_hexUpper h1,
    hexValue?_hexUpper h2]
  rw [Nat.div_add_mod]

theorem octets_escapes {os : List Nat} (h : ∀ o ∈ os, o < 256) (rest : List Char) :
    octets (os.flatMap escape ++ rest) = os ++ octets rest := by
  induction os with
  | nil => rfl
  | cons o os ih =>
    simp only [List.flatMap_cons, List.append_assoc, List.cons_append]
    rw [octets_escape (h o (by simp)), ih fun x hx => h x (by simp [hx])]

theorem octets_safe {c : Char} (h : isSafe c = true) (rest : List Char) :
    octets (c :: rest) = c.toNat :: octets rest := by
  have hc : c ≠ '%' := by
    rintro rfl
    exact absurd h (by decide)
  rw [octets]
  intro a b rest' he
  exact absurd he hc

theorem octets_percentEncode (s : List Char) : octets (percentEncode s) = Utf8.encode s := by
  induction s with
  | nil => rfl
  | cons c s ih =>
    have he : percentEncode (c :: s) =
        (if isSafe c then [c] else (Utf8.encodeChar c).flatMap escape) ++ percentEncode s := by
      simp [percentEncode]
    have hu : Utf8.encode (c :: s) = Utf8.encodeChar c ++ Utf8.encode s := by simp [Utf8.encode]
    rw [he, hu]
    by_cases hs : isSafe c = true
    · have hn : c.toNat < 0x80 := isSafe_ascii hs
      simp only [hs, if_true, List.cons_append, List.nil_append, octets_safe hs, ih,
        Utf8.encodeChar, if_pos hn]
    · simp only [hs, Bool.false_eq_true, if_false]
      rw [octets_escapes fun o ho => Utf8.lt_of_mem_encodeChar ho, ih]

theorem mem_escape {o : Nat} (h : o < 256) {c : Char} (hc : c ∈ escape o) :
    c = '%' ∨ isSafe c = true := by
  simp only [escape, List.mem_cons, List.not_mem_nil, or_false] at hc
  rcases hc with rfl | rfl | rfl
  · exact .inl rfl
  · exact .inr (isSafe_hexUpper (by omega))
  · exact .inr (isSafe_hexUpper (by omega))

/-- What is encoded has safe characters and percent signs only. -/
theorem mem_percentEncode {s : List Char} {c : Char} (hc : c ∈ percentEncode s) :
    c = '%' ∨ isSafe c = true := by
  obtain ⟨d, _, hd⟩ := List.mem_flatMap.mp hc
  split at hd
  · rename_i hs
    obtain rfl := List.mem_singleton.mp hd
    exact .inr hs
  · obtain ⟨o, ho, hco⟩ := List.mem_flatMap.mp hd
    exact mem_escape (Utf8.lt_of_mem_encodeChar ho) hco

theorem isAscii_percentEncode (s : List Char) : ∀ c ∈ percentEncode s, isAscii c = true := by
  intro c hc
  rcases mem_percentEncode hc with rfl | hs
  · decide
  · simpa [isAscii] using isSafe_ascii hs

theorem percentDecode_of_ascii {s : List Char} (h : ∀ c ∈ s, isAscii c = true) :
    percentDecode s = Utf8.decodeLossy (octets s) := by
  have hd : s.dropWhile isAscii = [] := List.dropWhile_eq_nil_iff.mpr h
  have ht : s.takeWhile isAscii = s := List.takeWhile_eq_self_iff.mpr h
  rw [percentDecode]
  split
  · rw [ht]
  · rename_i c rest he
    rw [hd] at he
    contradiction

theorem percentDecode_percentEncode (s : List Char) : percentDecode (percentEncode s) = s := by
  rw [percentDecode_of_ascii (isAscii_percentEncode s), octets_percentEncode,
    Utf8.decodeLossy_encode]

end Uri
end NotebookHub
