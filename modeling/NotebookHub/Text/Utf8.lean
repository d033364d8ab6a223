namespace NotebookHub.Utf8

def encodeChar (c : Char) : List Nat :=
  let n := c.toNat
  if n < 0x80 then [n]
  else if n < 0x800 then [0xC0 + n / 64, 0x80 + n % 64]
  else if n < 0x10000 then [0xE0 + n / 4096, 0x80 + n / 64 % 64, 0x80 + n % 64]
  else [0xF0 + n / 262144, 0x80 + n / 4096 % 64, 0x80 + n / 64 % 64, 0x80 + n % 64]

def encode (s : List Char) : List Nat := s.flatMap encodeChar

/-- What a leading octet announces: its share of the character, how many octets follow, and the
bounds of the first of them, which keep out overlong forms, surrogates and values past the last
character. -/
structure Lead where
  share : Nat
  follow : Nat
  low : Nat
  high : Nat

def lead? (b : Nat) : Option Lead :=
  if b < 0x80 then some ⟨b, 0, 0, 0⟩
  else if b < 0xC2 then none
  else if b < 0xE0 then some ⟨b - 0xC0, 1, 0x80, 0xBF⟩
  else if b = 0xE0 then some ⟨0, 2, 0xA0, 0xBF⟩
  else if b = 0xED then some ⟨13, 2, 0x80, 0x9F⟩
  else if b < 0xF0 then some ⟨b - 0xE0, 2, 0x80, 0xBF⟩
  else if b = 0xF0 then some ⟨0, 3, 0x90, 0xBF⟩
  else if b < 0xF4 then some ⟨b - 0xF0, 3, 0x80, 0xBF⟩
  else if b = 0xF4 then some ⟨4, 3, 0x80, 0x8F⟩
  else none

/-- Reads `n` following octets onto `acc`, and stops before one that does not belong. -/
def follow (acc : Nat) : (n low high : Nat) → List Nat → Option Nat × List Nat
  | 0, _, _, bs => (some acc, bs)
  | _ + 1, _, _, [] => (none, [])
  | n + 1, low, high, b :: bs =>
    if low ≤ b && b ≤ high then follow (acc * 64 + (b - 0x80)) n 0x80 0xBF bs else (none, b :: bs)

theorem length_follow (acc n low high : Nat) (bs : List Nat) :
    (follow acc n low high bs).2.length ≤ bs.length := by
  fun_induction follow acc n low high bs <;> simp_all
  omega

/-- The characters, with `none` for each malformed piece. -/
def decode : List Nat → List (Option Char)
  | [] => []
  | b :: bs =>
    match lead? b with
    | none => none :: decode bs
    | some l =>
      (follow l.share l.follow l.low l.high bs).1.map Char.ofNat ::
        decode (follow l.share l.follow l.low l.high bs).2
termination_by bs => bs.length
decreasing_by
  · simp
  · exact Nat.lt_succ_of_le (length_follow ..)

def decodeLossy (bs : List Nat) : List Char := (decode bs).map (·.getD '\uFFFD')

def decode? (bs : List Nat) : Option (List Char) := (decode bs).mapM id

example : decodeLossy [0xED, 0xA0, 0x80] = ['\uFFFD', '\uFFFD', '\uFFFD'] := by cbv
example : decodeLossy [0xE2, 0x82, 0x41] = ['\uFFFD', 'A'] := by cbv

end NotebookHub.Utf8
