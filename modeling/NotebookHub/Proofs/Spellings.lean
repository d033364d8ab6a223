import NotebookHub.Json.Reader
import NotebookHub.Proofs.Rounding

namespace NotebookHub.Json

def Gap (s : List Char) : Prop := ∀ c ∈ s, c ∈ [' ', '\t', '\n', '\r']

def HexDigit (n : Nat) (c : Char) : Prop := c = Text.hexLower n ∨ c = Text.hexUpper n

def UnitText (n : Nat) (s : List Char) : Prop :=
  ∃ a b c d, s = ['\\', 'u', a, b, c, d] ∧ HexDigit (n / 4096 % 16) a ∧ HexDigit (n / 256 % 16) b ∧
    HexDigit (n / 16 % 16) c ∧ HexDigit (n % 16) d

def shortEscapes : List (Char × Char) :=
  [('"', '"'), ('\\', '\\'), ('/', '/'), ('b', '\x08'), ('f', '\x0c'), ('n', '\n'),
    ('r', '\r'), ('t', '\t')]

/-- A code point within a string: as it stands, by an escape of one letter, or by its code units.
Half of a pair can only be written by its number. -/
inductive PointText : Point → List Char → Prop
  | raw {c : Char} (hlow : 0x20 ≤ c.toNat) (hquote : c ≠ '"') (hslash : c ≠ '\\') :
      PointText (.char c) [c]
  | short {e c : Char} (h : (e, c) ∈ shortEscapes) : PointText (.char c) ['\\', e]
  | unit {c : Char} {s : List Char} (hc : c.toNat < 0x10000) (h : UnitText c.toNat s) :
      PointText (.char c) s
  | pair {c : Char} {s t : List Char} (hc : 0x10000 ≤ c.toNat)
      (hhigh : UnitText (0xD800 + (c.toNat - 0x10000) / 1024) s)
      (hlow : UnitText (0xDC00 + (c.toNat - 0x10000) % 1024) t) : PointText (.char c) (s ++ t)
  | half {h : Half} {s : List Char} (hs : UnitText h.unit s) : PointText (.half h) s

def beginsPair : Point → Bool
  | .char _ => false
  | .half h => isHigh h.unit

def endsPair : Point → Bool
  | .char _ => false
  | .half h => isLow h.unit

/-- Two halves that make a pair are one character, so they cannot be written one after the other. -/
inductive PointsText : Points → List Char → Prop
  | nil : PointsText [] []
  | cons {p : Point} {x : List Char} {ps : Points} {s : List Char} (hp : PointText p x)
      (hps : PointsText ps s) (hpair : ∀ q ∈ ps.head?, ¬ (beginsPair p ∧ endsPair q)) :
      PointsText (p :: ps) (x ++ s)

def StringText (t : Points) (s : List Char) : Prop :=
  ∃ body, s = '"' :: (body ++ ['"']) ∧ PointsText t body

def DigitsText (ds : List Char) : Prop := ds ≠ [] ∧ ∀ c ∈ ds, c.isDigit = true

inductive FractionText : List Char → List Char → Prop
  | absent : FractionText [] []
  | present {ds : List Char} (h : DigitsText ds) : FractionText ds ('.' :: ds)

inductive ExponentText : Option Int → List Char → Prop
  | absent : ExponentText none []
  | plain {e : Char} {ds : List Char} (he : e = 'e' ∨ e = 'E') (h : DigitsText ds) :
      ExponentText (some (Text.asciiValue ds)) (e :: ds)
  | plus {e : Char} {ds : List Char} (he : e = 'e' ∨ e = 'E') (h : DigitsText ds) :
      ExponentText (some (Text.asciiValue ds)) (e :: '+' :: ds)
  | minus {e : Char} {ds : List Char} (he : e = 'e' ∨ e = 'E') (h : DigitsText ds) :
      ExponentText (some (-(Text.asciiValue ds : Int))) (e :: '-' :: ds)

def signed (negative : Bool) (n : Nat) : Int := if negative then -(n : Int) else n

def sign (negative : Bool) : List Char := if negative then ['-'] else []

def IntegerText (n : Int) (s : List Char) : Prop :=
  ∃ negative whole, n = signed negative whole ∧ s = sign negative ++ Nat.toDigits 10 whole

/-- A number with a fraction or an exponent writes the double that is nearest to it. -/
def RealText (x : Double) (s : List Char) : Prop :=
  ∃ negative whole frac fracText exp expText, FractionText frac fracText ∧
    ExponentText exp expText ∧ (frac ≠ [] ∨ exp.isSome = true) ∧
    Decimal.Stands ⟨Text.asciiValue (Nat.toDigits 10 whole ++ frac), exp.getD 0 - frac.length⟩
      negative x ∧
    s = sign negative ++ (Nat.toDigits 10 whole ++ (fracText ++ expText))

mutual

/-- The text writes the value, with its members in their order and every name once. -/
def WrittenAs : Json Points → List Char → Prop
  | .null, s => s = ['n', 'u', 'l', 'l']
  | .bool true, s => s = ['t', 'r', 'u', 'e']
  | .bool false, s => s = ['f', 'a', 'l', 's', 'e']
  | .int n, s => IntegerText n s
  | .real x, s => RealText x s
  | .str t, s => StringText t s
  | .arr vs, s => ∃ body, s = '[' :: (body ++ [']']) ∧ ItemsText vs body
  | .obj ms, s => (ms.map Prod.fst).Nodup ∧ ∃ body, s = '{' :: (body ++ ['}']) ∧ MembersText ms body

def ItemsText : List (Json Points) → List Char → Prop
  | [], s => Gap s
  | v :: vs, s => ∃ before text after tail, Gap before ∧ WrittenAs v text ∧ Gap after ∧
      s = before ++ (text ++ (after ++ tail)) ∧
      (vs = [] ∧ tail = [] ∨ vs ≠ [] ∧ ∃ rest, tail = ',' :: rest ∧ ItemsText vs rest)

def MembersText : List (Points × Json Points) → List Char → Prop
  | [], s => Gap s
  | (name, v) :: ms, s => ∃ before nameText after middle text last tail, Gap before ∧
      StringText name nameText ∧ Gap after ∧ Gap middle ∧ WrittenAs v text ∧ Gap last ∧
      s = before ++ (nameText ++ (after ++ ':' :: (middle ++ (text ++ (last ++ tail))))) ∧
      (ms = [] ∧ tail = [] ∨ ms ≠ [] ∧ ∃ rest, tail = ',' :: rest ∧ MembersText ms rest)

end

mutual

/-- The limit that a value goes beyond first, in the order of its parts, if it may hold `room` lists
and objects within one another. -/
def limit : Nat → Json Points → Except ReadError Unit
  | _, .int n => checkDigits (Nat.toDigits 10 n.natAbs).length
  | 0, .arr _ => .error .tooDeep
  | room + 1, .arr vs => limitItems room vs
  | 0, .obj _ => .error .tooDeep
  | room + 1, .obj ms => limitMembers room ms
  | _, _ => .ok ()

def limitItems : Nat → List (Json Points) → Except ReadError Unit
  | _, [] => .ok ()
  | room, v :: vs => do
    limit room v
    limitItems room vs

def limitMembers : Nat → List (Points × Json Points) → Except ReadError Unit
  | _, [] => .ok ()
  | room, (_, v) :: ms => do
    limit room v
    limitMembers room ms

end

theorem writtenAs_str {t : Points} {s : List Char} : (Json.str t).WrittenAs s ↔ StringText t s := by
  rw [WrittenAs]

theorem writtenAs_arr {vs : List (Json Points)} {s : List Char} :
    (Json.arr vs).WrittenAs s ↔ ∃ body, s = '[' :: (body ++ [']']) ∧ ItemsText vs body := by
  rw [WrittenAs]

theorem writtenAs_obj {ms : List (Points × Json Points)} {s : List Char} :
    (Json.obj ms).WrittenAs s ↔
      (ms.map Prod.fst).Nodup ∧ ∃ body, s = '\x7b' :: (body ++ ['\x7d']) ∧ MembersText ms body := by
  rw [WrittenAs]

section Gaps

theorem Gap.nil : Gap [] := by
  intro c hc
  cases hc

theorem Gap.isSpace {s : List Char} (hs : Gap s) {c : Char} (hc : c ∈ s) : isSpace c = true := by
  have hmem := hs c hc
  simp only [List.mem_cons, List.not_mem_nil, or_false] at hmem
  rcases hmem with rfl | rfl | rfl | rfl <;> rfl

theorem skip_gap {s : List Char} (hs : Gap s) (rest : List Char) :
    skip (s ++ rest) = skip rest := by
  unfold skip
  rw [List.dropWhile_append_of_pos]
  exact fun c hc => hs.isSpace hc

theorem skip_cons {c : Char} (hc : Json.isSpace c = false) (rest : List Char) :
    skip (c :: rest) = c :: rest := by
  simp [skip, hc]

end Gaps

section Strings

/-- What needs no escape may stand as it is. -/
theorem pointsText_raw {cs : List Char} (h : ∀ c ∈ cs, 0x20 ≤ c.toNat ∧ c ≠ '"' ∧ c ≠ '\\') :
    PointsText (cs.map .char) cs := by
  induction cs with
  | nil => exact .nil
  | cons c cs ih =>
    obtain ⟨hlow, hquote, hslash⟩ := h c (by simp)
    exact .cons (.raw hlow hquote hslash) (ih fun d hd => h d (List.mem_cons_of_mem c hd))
      (by simp [beginsPair])

theorem hexValue?_of_hexDigit {n : Nat} (hn : n < 16) {c : Char} (hc : HexDigit n c) :
    Text.hexValue? c = some n := by
  have hall : ∀ n < 16, Text.hexValue? (Text.hexLower n) = some n ∧
      Text.hexValue? (Text.hexUpper n) = some n := by
    decide
  rcases hc with rfl | rfl
  · exact (hall n hn).1
  · exact (hall n hn).2

theorem ascii_of_hexDigit {n : Nat} (hn : n < 16) {c : Char} (hc : HexDigit n c) :
    0x20 ≤ c.toNat ∧ c.toNat < 0x80 := by
  have hall : ∀ n < 16, (0x20 ≤ (Text.hexLower n).toNat ∧ (Text.hexLower n).toNat < 0x80) ∧
      0x20 ≤ (Text.hexUpper n).toNat ∧ (Text.hexUpper n).toNat < 0x80 := by
    decide
  rcases hc with rfl | rfl
  · exact (hall n hn).1
  · exact (hall n hn).2

def before (ps : List Piece) (r : List Piece × List Char) : List Piece × List Char :=
  (ps ++ r.1, r.2)

theorem pieces_unit {n : Nat} (hn : n < 0x10000) {s : List Char} (hs : UnitText n s)
    (rest : List Char) :
    pieces (s ++ rest) = (pieces rest).map (before [.unit n]) := by
  obtain ⟨a, b, c, d, rfl, ha, hb, hc, hd⟩ := hs
  have hunit : unit? a b c d = some n := by
    simp only [unit?, hexValue?_of_hexDigit (Nat.mod_lt _ (by omega)) ha,
      hexValue?_of_hexDigit (Nat.mod_lt _ (by omega)) hb,
        hexValue?_of_hexDigit (Nat.mod_lt _ (by omega)) hc,
      hexValue?_of_hexDigit (Nat.mod_lt _ (by omega)) hd, Option.bind_eq_bind, Option.bind_some,
        Option.pure_def,
      Option.some.injEq]
    omega
  simp only [List.cons_append, List.nil_append, pieces, hunit, Option.bind_some]
  rfl

theorem pieces_short {e c : Char} (h : (e, c) ∈ shortEscapes) (rest : List Char) :
    pieces ('\\' :: e :: rest) = (pieces rest).map (before [.char c]) := by
  simp only [shortEscapes, List.mem_cons, Prod.mk.injEq, List.not_mem_nil, or_false] at h
  rcases h with ⟨rfl, rfl⟩ | ⟨rfl, rfl⟩ | ⟨rfl, rfl⟩ | ⟨rfl, rfl⟩ | ⟨rfl, rfl⟩ |
    ⟨rfl, rfl⟩ | ⟨rfl, rfl⟩ |
    ⟨rfl, rfl⟩
  all_goals
    rw [pieces]
    · rfl
    · simp

theorem pieces_raw {c : Char} (hlow : 0x20 ≤ c.toNat) (hquote : c ≠ '"') (hslash : c ≠ '\\')
    (rest : List Char) : pieces (c :: rest) = (pieces rest).map (before [.char c]) := by
  rw [pieces]
  · rw [if_neg]
    · rfl
    · simp only [hslash, beq_iff_eq, Bool.or_eq_true, decide_eq_true_eq, or_false]
      omega
  · exact hquote
  all_goals
    intros
    exact hslash ‹_›

theorem ofUnit_toNat (c : Char) : Point.ofUnit c.toNat = .char c := by
  have hvalid : c.toNat < 0xD800 ∨ 0xDFFF < c.toNat ∧ c.toNat < 0x110000 := c.valid
  rw [Point.ofUnit, dif_neg (by omega), Char.ofNat_toNat]

theorem ofUnit_half (h : Half) : Point.ofUnit h.unit = .half h := by
  rw [Point.ofUnit, dif_pos h.isHalf]

def firstUnit? : List Piece → Option Nat
  | .unit n :: _ => some n
  | _ => none

/-- A code unit that does not begin a pair is a point by itself. -/
theorem join_unit {n : Nat} {qs : List Piece}
    (h : isHigh n = true → ∀ m ∈ firstUnit? qs, isLow m = false) :
    join (.unit n :: qs) = .ofUnit n :: join qs := by
  cases qs with
  | nil => simp [join]
  | cons q qs =>
    cases q with
    | char c => simp [join]
    | unit m =>
      rw [join, if_neg]
      simp only [Bool.and_eq_true, not_and, Bool.not_eq_true]
      exact fun hn => h hn m rfl

theorem join_pair {c : Char} (hc : 0x10000 ≤ c.toNat) (qs : List Piece) :
    join (.unit (0xD800 + (c.toNat - 0x10000) / 1024) ::
      .unit (0xDC00 + (c.toNat - 0x10000) % 1024) :: qs) = .char c :: join qs := by
  have hvalid : c.toNat < 0xD800 ∨ 0xDFFF < c.toNat ∧ c.toNat < 0x110000 := c.valid
  have hhigh : isHigh (0xD800 + (c.toNat - 0x10000) / 1024) = true := by
    simp only [isHigh, Bool.and_eq_true, decide_eq_true_eq]
    omega
  have hlow : isLow (0xDC00 + (c.toNat - 0x10000) % 1024) = true := by
    simp only [isLow, Bool.and_eq_true, decide_eq_true_eq]
    omega
  have hcode : 0x10000 + (0xD800 + (c.toNat - 0x10000) / 1024 - 0xD800) * 1024 +
      (0xDC00 + (c.toNat - 0x10000) % 1024 - 0xDC00) = c.toNat := by omega
  rw [join, hhigh, hlow, hcode, Char.ofNat_toNat]
  rfl

/-- No character is half of a pair. -/
theorem not_half_toNat (c : Char) : isHigh c.toNat = false ∧ isLow c.toNat = false := by
  have hvalid : c.toNat < 0xD800 ∨ 0xDFFF < c.toNat ∧ c.toNat < 0x110000 := c.valid
  simp only [isHigh, isLow, Bool.and_eq_false_iff, decide_eq_false_iff_not]
  omega

/-- The pieces of a written point, whatever comes after them, join to the point, if what comes does
not complete a pair with it. They begin with the second half of a pair only if the point is one. -/
theorem pieces_pointText {p : Point} {x : List Char} (hx : PointText p x) :
    ∃ ps, (∀ rest, pieces (x ++ rest) = (pieces rest).map (before ps)) ∧
      (∀ qs, (beginsPair p = true → ∀ m ∈ firstUnit? qs, isLow m = false) →
        join (ps ++ qs) = p :: join qs) ∧
      ∀ qs, ∀ m ∈ firstUnit? (ps ++ qs), isLow m = true → endsPair p = true := by
  cases hx with
  | raw hlow hquote hslash =>
    exact ⟨[.char _], pieces_raw hlow hquote hslash, fun qs _ => by simp [join],
      fun qs m hm => by simp [firstUnit?] at hm⟩
  | short h =>
    exact ⟨[.char _], pieces_short h, fun qs _ => by simp [join],
      fun qs m hm => by simp [firstUnit?] at hm⟩
  | @unit c _ hc h =>
    obtain ⟨hhigh, hlow⟩ := not_half_toNat c
    refine ⟨[.unit c.toNat], pieces_unit hc h, fun qs _ => ?_, fun qs m hm hlow' => ?_⟩
    · rw [List.singleton_append, join_unit (by simp [hhigh]), ofUnit_toNat]
    · obtain rfl := Option.some.inj hm
      simp [hlow] at hlow'
  | @pair c _ _ hc hhigh hlow =>
    have hvalid : c.toNat < 0xD800 ∨ 0xDFFF < c.toNat ∧ c.toNat < 0x110000 := c.valid
    refine ⟨[.unit _, .unit _], fun rest => ?_, fun qs _ => join_pair hc qs, fun qs m hm hm' => ?_⟩
    · rw [List.append_assoc, pieces_unit (by omega) hhigh, pieces_unit (by omega) hlow,
        Option.map_map]
      rfl
    · obtain rfl := Option.some.inj hm
      simp only [isLow, Bool.and_eq_true, decide_eq_true_eq] at hm'
      omega
  | @half h _ hs =>
    have hhalf := h.isHalf
    refine ⟨[.unit h.unit], pieces_unit (by omega) hs, fun qs hqs => ?_, fun qs m hm hm' => ?_⟩
    · rw [List.singleton_append, join_unit hqs, ofUnit_half]
    · obtain rfl := Option.some.inj hm
      exact hm'

/-- A string is read as what it writes. -/
theorem string_stringText {t : Points} {body : List Char} (h : PointsText t body)
    (rest : List Char) : string (body ++ '"' :: rest) = some (t, rest) := by
  have hpieces : ∃ ps, pieces (body ++ '"' :: rest) = some (ps, rest) ∧ join ps = t ∧
      ∀ m ∈ firstUnit? ps, isLow m = true → ∃ q ∈ t.head?, endsPair q = true := by
    induction h with
    | nil => exact ⟨[], by simp [pieces], rfl, by simp [firstUnit?]⟩
    | cons hp _ hpair ih =>
      obtain ⟨ps, hps, hjoin, hfirst⟩ := pieces_pointText hp
      obtain ⟨qs, hqs, rfl, hlow⟩ := ih
      refine ⟨ps ++ qs, by rw [List.append_assoc, hps, hqs]; rfl, hjoin qs ?_,
        fun m hm hm' => ⟨_, rfl, hfirst qs m hm hm'⟩⟩
      intro hhigh m hm
      rw [← Bool.not_eq_true]
      intro hm'
      obtain ⟨q, hq, hqlow⟩ := hlow m hm hm'
      exact hpair q hq ⟨hhigh, hqlow⟩
  obtain ⟨ps, hps, rfl, _⟩ := hpieces
  simp [string, hps]

/-- Raw characters apart, a string is written in ASCII. -/
theorem pointText_chars {p : Point} {x : List Char} (hx : PointText p x) :
    (∃ c, x = [c] ∧ 0x20 ≤ c.toNat) ∨ ∀ d ∈ x, 0x20 ≤ d.toNat ∧ d.toNat < 0x80 := by
  have hunit {n : Nat} {s : List Char} (hs : UnitText n s) : ∀ d ∈ s, 0x20 ≤ d.toNat ∧
      d.toNat < 0x80 := by
    obtain ⟨a, b, c, d, rfl, ha, hb, hc, hd⟩ := hs
    simp only [List.mem_cons, List.not_mem_nil, or_false, forall_eq_or_imp, forall_eq]
    exact ⟨by decide, by decide, ascii_of_hexDigit (Nat.mod_lt _ (by omega)) ha,
      ascii_of_hexDigit (Nat.mod_lt _ (by omega)) hb,
        ascii_of_hexDigit (Nat.mod_lt _ (by omega)) hc,
      ascii_of_hexDigit (Nat.mod_lt _ (by omega)) hd⟩
  cases hx with
  | raw hlow => exact .inl ⟨_, rfl, hlow⟩
  | short h =>
    have hall : ∀ p ∈ shortEscapes, ∀ d ∈ ['\\', p.1], 0x20 ≤ d.toNat ∧ d.toNat < 0x80 := by
      simp [shortEscapes]
    exact .inr (hall _ h)
  | unit hc h => exact .inr (hunit h)
  | half hs => exact .inr (hunit hs)
  | pair hc hhigh hlow =>
    right
    intro d hd
    rcases List.mem_append.mp hd with hd | hd
    · exact hunit hhigh d hd
    · exact hunit hlow d hd

/-- A character at which a text may stand raw in a string, and the reader of a recording ends a
line. -/
def Separator (c : Char) : Prop := c = '\x85' ∨ c = '\u2028' ∨ c = '\u2029'

instance : DecidablePred Separator := fun _ => inferInstanceAs (Decidable (_ ∨ _ ∨ _))

theorem Separator.not_ascii {c : Char} (h : Separator c) : ¬ c.toNat < 0x80 := by
  rcases h with rfl | rfl | rfl <;> decide

/-- A text that is cut before a character of its second part begins with the whole first part. -/
theorem cut_append {α : Type} {a b s t : List α} {c : α} (h : a ++ c :: b = s ++ t) :
    (∃ b', s = a ++ c :: b') ∨ ∃ a', a = s ++ a' ∧ a' ++ c :: b = t := by
  rcases List.append_eq_append_iff.mp h with ⟨a', hs, ht⟩ | ⟨a', ha, ht⟩
  · cases a' with
    | nil => exact .inr ⟨[], by simpa using hs.symm, by simpa using ht⟩
    | cons d a' =>
      obtain ⟨rfl, rfl⟩ := List.cons.inj ht
      exact .inl ⟨a', hs⟩
  · exact .inr ⟨a', ha, ht.symm⟩

/-- A string that is cut off is not read. -/
theorem string_cut {t : Points} {a b : List Char} {c : Char} (h : PointsText t (a ++ c :: b))
    (hc : Separator c) : string a = none := by
  have hpieces : pieces a = none := by
    generalize hs : a ++ c :: b = s at h
    induction h generalizing a with
    | nil => simp at hs
    | cons hx _ _ ih =>
      rcases cut_append hs with ⟨b', rfl⟩ | ⟨a', rfl, hrest⟩
      · rcases pointText_chars hx with ⟨_, hraw, _⟩ | hascii
        · rcases List.append_eq_singleton_iff.mp hraw with ⟨rfl, _⟩ | ⟨_, hnil⟩
          · rfl
          · cases hnil
        · exact absurd (hascii c (by simp)).2 hc.not_ascii
      · obtain ⟨ps, hps, _⟩ := pieces_pointText hx
        rw [hps, ih hrest]
        rfl
  simp [string, hpieces]

end Strings

section Numbers

/-- A number that stands before such a text ends there. -/
def Stops (s : List Char) : Prop := ∀ c ∈ s.head?, c.isDigit = false ∧ c ≠ '.' ∧ c ≠ 'e' ∧ c ≠ 'E'

theorem Stops.cons {c : Char} (hc : c ∈ [' ', '\t', '\n', '\r', ',', ']', '\x7d']) (s : List Char) :
    Stops (c :: s) := by
  intro d hd
  obtain rfl := Option.some.inj hd
  simp only [List.mem_cons, List.not_mem_nil, or_false] at hc
  rcases hc with rfl | rfl | rfl | rfl | rfl | rfl | rfl <;> decide

theorem Gap.stops {s rest : List Char} (hs : Gap s) (hrest : Stops rest) : Stops (s ++ rest) := by
  cases s with
  | nil => exact hrest
  | cons c s =>
    have hc := hs c (by simp)
    simp only [List.mem_cons, List.not_mem_nil, or_false] at hc
    apply Stops.cons
    rcases hc with rfl | rfl | rfl | rfl <;> simp

theorem takeWhile_digits {ds rest : List Char} (hds : ∀ c ∈ ds, c.isDigit = true)
    (hrest : ∀ c ∈ rest.head?, c.isDigit = false) :
    (ds ++ rest).takeWhile Char.isDigit = ds ∧ (ds ++ rest).dropWhile Char.isDigit = rest := by
  rw [List.takeWhile_append_of_pos hds, List.dropWhile_append_of_pos hds]
  cases rest with
  | nil => simp
  | cons c rest => simp [hrest c rfl]

theorem asciiValue_toDigits (n : Nat) : Text.asciiValue (Nat.toDigits 10 n) = n := by
  have hdigit : ∀ d < 10, (Nat.digitChar d).toNat - 48 = d := by decide
  induction n using Nat.strongRecOn with
  | ind n ih =>
    by_cases hn : n < 10
    · simpa [Nat.toDigits_of_lt_base hn, Text.asciiValue] using hdigit n hn
    · have hfront := ih (n / 10) (by omega)
      rw [Text.asciiValue] at hfront
      rw [Nat.toDigits_of_base_le (by omega) (by omega), Text.asciiValue, List.foldl_append, hfront]
      simp only [List.foldl_cons, List.foldl_nil, hdigit (n % 10) (Nat.mod_lt _ (by omega))]
      omega

theorem digits_toDigits (n : Nat) : ∀ c ∈ Nat.toDigits 10 n, c.isDigit = true :=
  fun _ hc => Nat.isDigit_of_mem_toDigits (by omega) (by omega) hc

/-- Only zero begins with a zero. -/
theorem head_toDigits {n : Nat} (hn : n ≠ 0) : ∃ c cs, Nat.toDigits 10 n = c :: cs ∧ c ≠ '0' := by
  have hdigit : ∀ d < 10, d ≠ 0 → Nat.digitChar d ≠ '0' := by decide
  induction n using Nat.strongRecOn with
  | ind n ih =>
    by_cases hlt : n < 10
    · exact ⟨_, [], Nat.toDigits_of_lt_base hlt, hdigit n hlt hn⟩
    · obtain ⟨c, cs, hcs, hc⟩ := ih (n / 10) (by omega) (by omega)
      exact ⟨c, cs ++ [Nat.digitChar (n % 10)],
        by rw [Nat.toDigits_of_base_le (by omega) (by omega), hcs, List.cons_append], hc⟩

theorem wholePart_toDigits (n : Nat) {rest : List Char}
    (hrest : ∀ c ∈ rest.head?, c.isDigit = false) :
    wholePart (Nat.toDigits 10 n ++ rest) = some (Nat.toDigits 10 n, rest) := by
  by_cases hn : n = 0
  · subst hn
    rfl
  · obtain ⟨c, cs, hcs, hc⟩ := head_toDigits hn
    obtain ⟨htake, hdrop⟩ := takeWhile_digits (digits_toDigits n) hrest
    rw [hcs, List.cons_append] at htake hdrop ⊢
    rw [wholePart, htake, hdrop]
    · rfl
    · intro rest' he
      exact hc (List.cons.inj he).1

theorem fraction_text {ds s rest : List Char} (h : FractionText ds s)
    (hrest : ∀ c ∈ rest.head?, c.isDigit = false ∧ c ≠ '.') :
    fraction (s ++ rest) = (ds, rest) := by
  cases h with
  | absent =>
    cases rest with
    | nil => rfl
    | cons c rest =>
      have hc := (hrest c rfl).2
      unfold fraction
      split
      · rename_i he
        exact absurd (List.cons.inj he).1 hc
      · rfl
  | present hds =>
    obtain ⟨htake, hdrop⟩ := takeWhile_digits hds.2 fun c hc => (hrest c hc).1
    rw [List.cons_append, fraction, htake, hdrop, if_neg]
    simpa using hds.1

theorem exponent_text {exp : Option Int} {s rest : List Char} (h : ExponentText exp s)
    (hrest : Stops rest) :
    exponent (s ++ rest) = (exp, rest) := by
  have hspan {ds : List Char} (hds : DigitsText ds) :=
    takeWhile_digits hds.2 fun c hc => (hrest c hc).1
  have hmark {e : Char} (he : e = 'e' ∨ e = 'E') : (e == 'e' || e == 'E') = true := by
    simpa using he
  cases h with
  | absent =>
    cases rest with
    | nil => rfl
    | cons c rest =>
      have hc : (c == 'e' || c == 'E') = false := by simpa using (hrest c rfl).2.2
      unfold exponent
      split
      all_goals
        rename_i he
        cases he
      all_goals simp [hc]
  | plain he hds =>
    rename_i e ds
    obtain ⟨htake, hdrop⟩ := hspan hds
    obtain ⟨d, ds, rfl⟩ := List.exists_cons_of_ne_nil hds.1
    have hd := hds.2 d (by simp)
    rw [List.cons_append, exponent]
    · simp only [htake, hdrop, hmark he, if_true]
      rfl
    · rintro r hr
      obtain rfl := (List.cons.inj hr).1
      cases hd
    · rintro r hr
      obtain rfl := (List.cons.inj hr).1
      cases hd
  | plus he hds | minus he hds =>
    rename_i e ds
    obtain ⟨htake, hdrop⟩ := hspan hds
    have hne : ds.isEmpty = false := by simpa using hds.1
    rw [List.cons_append, List.cons_append, exponent]
    simp [htake, hdrop, hmark he, hne]

/-- A whole number is read as what it writes, if it keeps to the limit of digits; any other is
rounded. -/
theorem number_text {frac fracText expText rest : List Char} {exp : Option Int}
    (negative : Bool) (whole : Nat)
    (hfrac : FractionText frac fracText) (hexp : ExponentText exp expText) (hrest : Stops rest) :
    number (sign negative ++ (Nat.toDigits 10 whole ++ (fracText ++ (expText ++ rest)))) =
      if frac.isEmpty && exp.isNone then
        (checkDigits (Nat.toDigits 10 whole).length).map
        fun _ => (.int (signed negative whole), rest)
      else
        .ok (.real (.ofDecimal negative
          ⟨Text.asciiValue (Nat.toDigits 10 whole ++ frac), exp.getD 0 - frac.length⟩), rest) := by
  have hexpHead : ∀ c ∈ (expText ++ rest).head?, c.isDigit = false ∧ c ≠ '.' := by
    intro c hc
    cases hexp with
    | absent => exact ⟨(hrest c hc).1, (hrest c hc).2.1⟩
    | plain he | plus he | minus he =>
      obtain rfl := Option.some.inj hc
      rcases he with rfl | rfl <;> decide
  have hfracHead : ∀ c ∈ (fracText ++ (expText ++ rest)).head?, c.isDigit = false := by
    intro c hc
    cases hfrac with
    | absent => exact (hexpHead c hc).1
    | present =>
      obtain rfl := Option.some.inj hc
      rfl
  cases negative with
  | true =>
    rw [sign, if_pos rfl, List.cons_append, List.nil_append, number]
    simp only [wholePart_toDigits whole hfracHead, fraction_text hfrac hexpHead,
      exponent_text hexp hrest, asciiValue_toDigits]
    rfl
  | false =>
    rw [sign, if_neg Bool.false_ne_true, List.nil_append, number]
    · simp only [wholePart_toDigits whole hfracHead, fraction_text hfrac hexpHead,
        exponent_text hexp hrest, asciiValue_toDigits]
      rfl
    · intro rest' he
      obtain ⟨c, cs, hcs⟩ :=
        List.exists_cons_of_length_pos (Nat.length_toDigits_pos (b := 10) (n := whole))
      have hc := digits_toDigits whole c (by simp [hcs])
      rw [hcs] at he
      obtain rfl := (List.cons.inj he).1
      cases hc

end Numbers

end NotebookHub.Json
