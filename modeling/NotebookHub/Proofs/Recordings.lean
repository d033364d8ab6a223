import Mathlib.Data.List.Lex
import Mathlib.Data.List.Permutation
import NotebookHub.Proofs.Readings
import NotebookHub.Recording

namespace NotebookHub

namespace Json

mutual

/-- The value with all members in the order of their names: what is left of it when order does not
matter. -/
def settled : Json Points → Json Points
  | .arr vs => .arr (settledItems vs)
  | .obj ms =>
    .obj ((settledMembers ms).mergeSort fun a b => a.1.map Point.code ≤ b.1.map Point.code)
  | v => v

def settledItems : List (Json Points) → List (Json Points)
  | [] => []
  | v :: vs => settled v :: settledItems vs

def settledMembers : List (Points × Json Points) → List (Points × Json Points)
  | [] => []
  | (name, v) :: ms => (name, settled v) :: settledMembers ms

end

theorem settledMembers_eq (ms : List (Points × Json Points)) :
    settledMembers ms = ms.map fun m => (m.1, m.2.settled) := by
  induction ms with
  | nil => rfl
  | cons m ms ih => rw [settledMembers, ih]; rfl

theorem limitItems_eq_ok {room : Nat} {vs : List (Json Points)} :
    limitItems room vs = .ok () ↔ ∀ v ∈ vs, limit room v = .ok () := by
  induction vs with
  | nil => simp [limitItems]
  | cons v vs ih =>
    rw [limitItems, List.forall_mem_cons, ← ih]
    cases limit room v <;> simp [bind, Except.bind]

theorem limitMembers_eq_ok {room : Nat} {ms : List (Points × Json Points)} :
    limitMembers room ms = .ok () ↔ ∀ m ∈ ms, limit room m.2 = .ok () := by
  induction ms with
  | nil => simp [limitMembers]
  | cons m ms ih =>
    rw [limitMembers, List.forall_mem_cons, ← ih]
    cases limit room m.2 <;> simp [bind, Except.bind]

mutual

/-- Order and form have no part in the limits. -/
theorem limit_settled : (v : Json Points) → ∀ room, limit room v.settled = .ok () ↔
    limit room v = .ok () := by
  intro v room
  match v with
  | .null | .bool _ | .int _ | .real _ | .str _ => rfl
  | .arr vs =>
    match room with
    | 0 => rfl
    | room + 1 => exact limitItems_settled vs room
  | .obj ms =>
    match room with
    | 0 => rfl
    | room + 1 =>
      rw [settled, limit, limit, ← limitMembers_settled ms room, limitMembers_eq_ok,
        limitMembers_eq_ok]
      simp only [(List.mergeSort_perm _ _).mem_iff]

theorem limitItems_settled : (vs : List (Json Points)) →
    ∀ room, limitItems room (settledItems vs) = .ok () ↔ limitItems room vs = .ok () := by
  intro vs room
  match vs with
  | [] => rfl
  | v :: vs =>
    rw [settledItems, limitItems_eq_ok, limitItems_eq_ok, List.forall_mem_cons,
      List.forall_mem_cons,
      limit_settled v room, ← limitItems_eq_ok, ← limitItems_eq_ok, limitItems_settled vs room]

theorem limitMembers_settled : (ms : List (Points × Json Points)) →
    ∀ room, limitMembers room (settledMembers ms) = .ok () ↔ limitMembers room ms = .ok () := by
  intro ms room
  match ms with
  | [] => rfl
  | (name, v) :: ms =>
    rw [settledMembers, limitMembers_eq_ok, limitMembers_eq_ok, List.forall_mem_cons,
      List.forall_mem_cons, limit_settled v room, ← limitMembers_eq_ok, ← limitMembers_eq_ok,
      limitMembers_settled ms room]

end

end Json

namespace Text

theorem foldReturns_of_not_mem {s : List Char} (hs : '\r' ∉ s) : foldReturns s = s := by
  induction s with
  | nil => rfl
  | cons c s ih =>
    simp only [List.mem_cons, not_or] at hs
    rw [foldReturns, ih hs.2]
    · rintro _ rfl
      exact absurd rfl hs.1
    · rintro rfl
      exact absurd rfl hs.1

theorem lines_cons {c : Char} (hc : c ≠ '\r') (s : List Char) :
    lines (c :: s) =
      if isBreak c then [c] :: lines s
      else
        match lines s with
        | [] => [[c]]
        | first :: others => (c :: first) :: others := by
  have hpair : ∀ rest, c = '\r' → s = '\n' :: rest → False := by
    intro _ he _
    exact hc he
  exact lines.eq_3 c s hpair

theorem ne_return_of_not_break {c : Char} (hc : isBreak c = false) : c ≠ '\r' := by
  rintro rfl
  cases hc

/-- A line goes to its first break. -/
theorem lines_of_break {a : List Char} (ha : ∀ d ∈ a, isBreak d = false) {c : Char}
    (hc : isBreak c = true)
    (hr : c ≠ '\r') (s : List Char) : lines (a ++ c :: s) = (a ++ [c]) :: lines s := by
  induction a with
  | nil => rw [List.nil_append, lines_cons hr, if_pos hc, List.nil_append]
  | cons d a ih =>
    have hd := ha d (by simp)
    rw [List.cons_append, lines_cons (ne_return_of_not_break hd), if_neg (by simp [hd]),
      ih fun d' hd' => ha d' (List.mem_cons_of_mem d hd')]
    rfl

theorem lines_of_no_break {a : List Char} (ha : ∀ d ∈ a, isBreak d = false) (hne : a ≠ []) :
    lines a = [a] := by
  induction a with
  | nil => exact absurd rfl hne
  | cons d a ih =>
    have hd := ha d (by simp)
    rw [lines_cons (ne_return_of_not_break hd), if_neg (by simp [hd])]
    cases a with
    | nil => rfl
    | cons d' a => rw [ih (fun d' hd' => ha d' (List.mem_cons_of_mem d hd')) (by simp)]

/-- A line feed ends a line wherever it stands. -/
theorem lines_of_feed {a : List Char} (ha : '\r' ∉ a) (s : List Char) :
    lines (a ++ '\n' :: s) = lines (a ++ ['\n']) ++ lines s := by
  induction a with
  | nil =>
    rw [List.nil_append, List.nil_append, lines_cons (by decide), lines_cons (by decide)]
    rfl
  | cons c a ih =>
    simp only [List.mem_cons, not_or] at ha
    have hc : c ≠ '\r' := fun he => ha.1 he.symm
    rw [List.cons_append, List.cons_append, lines_cons hc, lines_cons hc, ih ha.2]
    split
    · rfl
    · have hne : lines (a ++ ['\n']) ≠ [] := by
        intro hnil
        have hflat := flatten_lines (a ++ ['\n'])
        rw [hnil] at hflat
        simp at hflat
      obtain ⟨first, others, he⟩ := List.exists_cons_of_ne_nil hne
      rw [he]
      rfl

/-- Of blanks there are only blank lines. -/
theorem lines_blank {s : List Char} (hs : ∀ c ∈ s, isBlank c = true) :
    ∀ line ∈ lines s, line.all isBlank = true := by
  intro line hline
  rw [List.all_eq_true]
  intro c hc
  apply hs
  rw [← flatten_lines s]
  exact List.mem_flatten.mpr ⟨line, hline, hc⟩

theorem withoutBreak_of_no_break {a : List Char} (ha : ∀ d ∈ a, isBreak d = false) :
    withoutBreak a = a := by
  have hkeep : a.reverse.dropWhile isBreak = a.reverse := by
    cases hr : a.reverse with
    | nil => rfl
    | cons d t =>
      have hd := ha d (List.mem_reverse.mp (by simp [hr]))
      rw [List.dropWhile_cons_of_neg (by simp [hd])]
  rw [withoutBreak, hkeep, List.reverse_reverse]

theorem withoutBreak_break {a : List Char} (ha : ∀ d ∈ a, isBreak d = false) {c : Char}
    (hc : isBreak c = true) :
    withoutBreak (a ++ [c]) = a := by
  have hkeep := withoutBreak_of_no_break ha
  rw [withoutBreak] at hkeep ⊢
  rw [List.reverse_append, List.reverse_singleton, List.singleton_append,
    List.dropWhile_cons_of_pos hc, hkeep]

end Text

namespace Recording

def methodName : Points := TextLike.ofString "method"

def paramsName : Points := TextLike.ofString "params"

def Event.json (e : Event Points) : Json Points :=
  .obj [(methodName, .str e.method), (paramsName, .obj e.params)]

/-- The text writes the event as one JSON object, in whatever order of members. -/
def Event.WrittenAs (e : Event Points) (s : List Char) : Prop :=
  ∃ (before text after : List Char) (v : Json Points), s = before ++ (text ++ after) ∧
    Json.Gap before ∧ Json.Gap after ∧
    v.WrittenAs text ∧ v.settled = e.json.settled

/-- A line as the writer has it, without the line feed after it. -/
structure Line where
  chars : List Char
  event : Option (Event Points)

namespace Line

def Written (l : Line) : Prop :=
  '\n' ∉ l.chars ∧ '\r' ∉ l.chars ∧
  match l.event with
  | some e => e.WrittenAs l.chars
  | none => ∀ c ∈ l.chars, Text.isBlank c = true

/-- Nothing in it keeps its event from being read. -/
def Readable (room : Nat) (l : Line) : Prop :=
  ∀ e, l.event = some e →
    (∀ c ∈ l.chars, ¬ Json.Separator c) ∧ Json.limit room e.json = .ok ()

end Line

def joined (lines : List Line) : List Char := ['\n'].intercalate (lines.map Line.chars)

theorem obj_of_settled {v : Json Points} {ms : List (Points × Json Points)}
    (h : v.settled = .obj ms) :
    ∃ ms', v = .obj ms' ∧ (Json.settledMembers ms').Perm ms := by
  cases v with
  | obj ms' =>
    simp only [Json.settled, Json.obj.injEq] at h
    exact ⟨ms', rfl, h ▸ (List.mergeSort_perm _ _).symm⟩
  | null | bool | int | real | str | arr => simp [Json.settled] at h

theorem str_of_settled {v : Json Points} {t : Points} (h : v.settled = .str t) : v = .str t := by
  cases v with
  | str t' => simpa [Json.settled] using h
  | null | bool | int | real | obj | arr => simp [Json.settled] at h

/-- What writes an event is read as one. -/
theorem ofJson_of_settled {e : Event Points} {v : Json Points} (h : v.settled = e.json.settled) :
    ∃ e', Event.ofJson? v = some e' ∧ e'.json.settled = e.json.settled := by
  obtain ⟨ms, rfl, hperm⟩ := obj_of_settled h
  have hmembers : (ms.map fun m => (m.1, m.2.settled)).Perm
      [(methodName, .str e.method), (paramsName, (Json.obj e.params).settled)] := by
    rw [← Json.settledMembers_eq]
    exact hperm.trans (List.mergeSort_perm _ _)
  have hread {x y : Json Points} (hx : x.settled = .str e.method)
    (hy : y.settled = (Json.obj e.params).settled)
      (hmethod : Json.member? ms (TextLike.ofString "method") = some x)
      (hparams : Json.member? ms (TextLike.ofString "params") = some y) :
      ∃ e', Event.ofJson? (.obj ms) = some e' ∧ e'.json.settled = e.json.settled := by
    obtain rfl := str_of_settled hx
    obtain ⟨ps, rfl, _⟩ := obj_of_settled hy
    refine ⟨⟨e.method, ps⟩,
      by simp [Event.ofJson?, Json.fields?, hmethod, hparams, Json.string?], ?_⟩
    simp only [Event.json, Json.settled, Json.settledMembers] at hy ⊢
    rw [hy]
  rcases List.perm_pair.mp hmembers with hms | hms
  · obtain ⟨⟨_, x⟩, rest, rfl, hx, hrest⟩ := List.map_eq_cons_iff.mp hms
    obtain ⟨⟨_, y⟩, _, rfl, hy, hnil⟩ := List.map_eq_cons_iff.mp hrest
    obtain rfl := List.map_eq_nil_iff.mp hnil
    obtain ⟨rfl, hx⟩ := Prod.mk.inj hx
    obtain ⟨rfl, hy⟩ := Prod.mk.inj hy
    exact hread hx hy rfl rfl
  · obtain ⟨⟨_, y⟩, rest, rfl, hy, hrest⟩ := List.map_eq_cons_iff.mp hms
    obtain ⟨⟨_, x⟩, _, rfl, hx, hnil⟩ := List.map_eq_cons_iff.mp hrest
    obtain rfl := List.map_eq_nil_iff.mp hnil
    obtain ⟨rfl, hx⟩ := Prod.mk.inj hx
    obtain ⟨rfl, hy⟩ := Prod.mk.inj hy
    exact hread hx hy rfl rfl

theorem ofLine_writtenAs {e : Event Points} {s : List Char} (room : Nat) (h : e.WrittenAs s) :
    (Json.limit room e.json = .ok () →
      ∃ e', Event.ofLine room s = .ok e' ∧ e'.json.settled = e.json.settled) ∧
    (Json.limit room e.json ≠ .ok () → ∃ fault, Event.ofLine room s = .error fault) := by
  obtain ⟨before, text, after, v, rfl, hbefore, hafter, hv, hsettled⟩ := h
  have hread := Json.read_writtenAs room hbefore hv hafter
  have hlimit : Json.limit room v = .ok () ↔ Json.limit room e.json = .ok () := by
    rw [← Json.limit_settled v, hsettled, Json.limit_settled]
  constructor
  · intro hok
    obtain ⟨e', he', hsame⟩ := ofJson_of_settled hsettled
    rw [hlimit.mpr hok] at hread
    exact ⟨e', by simp [Event.ofLine, hread, Except.map, he'], hsame⟩
  · intro hnot
    cases hv : Json.limit room v with
    | ok _ => exact absurd (hlimit.mp hv) hnot
    | error fault =>
      rw [hv] at hread
      exact ⟨.unreadable fault, by simp [Event.ofLine, hread, Except.map]⟩

/-- An event begins with a brace, after space. -/
theorem brace_of_writtenAs {e : Event Points} {s : List Char} (h : e.WrittenAs s) :
    ∃ before rest, s = before ++ '\x7b' :: rest ∧ Json.Gap before := by
  obtain ⟨before, text, after, v, rfl, hbefore, _, hv, hsettled⟩ := h
  obtain ⟨ms, rfl, _⟩ := obj_of_settled hsettled
  obtain ⟨_, body, rfl, _⟩ := Json.writtenAs_obj.mp hv
  exact ⟨before, _, rfl, hbefore⟩

theorem not_blank_of_brace {s : List Char} (h : '\x7b' ∈ s) : s.all Text.isBlank = false := by
  rw [List.all_eq_false]
  exact ⟨'\x7b', h, by decide⟩

/-- Outside of strings there is no control character, and within one only a separator can break a
line. -/
theorem not_break {e : Event Points} {s : List Char} (h : e.WrittenAs s) (hfeed : '\n' ∉ s)
    (hreturn : '\r' ∉ s) {c : Char}
    (hc : c ∈ s) (hsep : ¬ Json.Separator c) : Text.isBreak c = false := by
  have hlegal : Json.Legal c := by
    obtain ⟨before, text, after, v, rfl, hbefore, hafter, hv, _⟩ := h
    simp only [List.mem_append] at hc
    rcases hc with hc | hc | hc
    · exact hbefore.legal c hc
    · exact Json.legal_writtenAs v hv c hc
    · exact hafter.legal c hc
  have hcode {n : Nat} (hn : c.toNat = n) : c = Char.ofNat n := by rw [← hn, Char.ofNat_toNat]
  have hne : c.toNat ≠ 0x85 ∧ c.toNat ≠ 0x2028 ∧ c.toNat ≠ 0x2029 :=
    ⟨fun hn => hsep (.inl (hcode hn)), fun hn => hsep (.inr (.inl (hcode hn))),
      fun hn => hsep (.inr (.inr (hcode hn)))⟩
  rcases hlegal with hspace | hlow
  · simp only [List.mem_cons, List.not_mem_nil, or_false] at hspace
    rcases hspace with rfl | rfl | rfl
    · rfl
    · exact absurd hc hfeed
    · exact absurd hc hreturn
  · simp only [Text.isBreak, Bool.or_eq_false_iff, Bool.and_eq_false_iff, decide_eq_false_iff_not,
      beq_eq_false_iff_ne]
    omega

theorem separator_breaks {c : Char} (hc : Json.Separator c) : Text.isBreak c = true ∧ c ≠ '\r' := by
  rcases hc with rfl | rfl | rfl <;> decide

/-- What stands before the first separator of a written event is not read. -/
theorem ofLine_cut (room : Nat) {e : Event Points} {a b : List Char} {c : Char}
    (h : e.WrittenAs (a ++ c :: b)) (hc : Json.Separator c) :
    (∃ fault, Event.ofLine room a = .error fault) ∧ '\x7b' ∈ a := by
  constructor
  · obtain ⟨before, text, after, v, hs, hbefore, hafter, hv, _⟩ := h
    obtain ⟨fault, hfault⟩ := Json.read_cut room hbefore hv hafter hs hc
    exact ⟨.unreadable fault, by simp [Event.ofLine, hfault]⟩
  · obtain ⟨before, rest, hs, hbefore⟩ := brace_of_writtenAs h
    obtain ⟨a, rfl, hcut⟩ := Json.cut_gap hbefore hc hs
    obtain ⟨a, rfl, _⟩ := Json.cut_mark hc (by decide) hcut
    simp

def Follows (s rest : List Char) : Prop := s = [] ∧ rest = [] ∨ s = '\n' :: rest

section Lines

variable {room : Nat} {l : Line} {s rest : List Char}

theorem readLines_blank (n : Nat) {blanks : List (List Char)}
    (hb : ∀ b ∈ blanks, b.all Text.isBlank = true) (ls : List (List Char)) :
    readLines room n (blanks ++ ls) = readLines room (n + blanks.length) ls := by
  induction blanks generalizing n with
  | nil => rfl
  | cons b bs ih =>
    rw [List.cons_append, readLines, if_pos (hb b (by simp)), ih (n + 1)
      fun b' hb' => hb b' (List.mem_cons_of_mem b hb')]
    congr 1
    simp only [List.length_cons]
    omega

theorem readLines_of_blank (n : Nat) (hl : l.Written) (hevent : l.event = none)
    (hs : Follows s rest) :
    ∃ m, readLines room n (Text.lines (l.chars ++ s)) = readLines room m (Text.lines rest) := by
  obtain ⟨_, hreturn, hblank⟩ := hl
  rw [hevent] at hblank
  rcases hs with ⟨rfl, rfl⟩ | rfl
  · refine ⟨n + (Text.lines l.chars).length, ?_⟩
    rw [List.append_nil, ← List.append_nil (Text.lines l.chars),
      readLines_blank n (Text.lines_blank hblank), List.append_nil]
    rfl
  · refine ⟨n + (Text.lines (l.chars ++ ['\n'])).length, ?_⟩
    rw [Text.lines_of_feed hreturn, readLines_blank n (Text.lines_blank _)]
    intro c hc
    rcases List.mem_append.mp hc with hc | hc
    · exact hblank c hc
    · obtain rfl := List.mem_singleton.mp hc
      rfl

theorem readLines_visible (n : Nat) {line : List Char} (hline : line.all Text.isBlank = false)
    (ls : List (List Char)) :
    readLines room n (line :: ls) =
      match Event.ofLine room (Text.withoutBreak line) with
      | .error fault => .error ⟨n, fault⟩
      | .ok e => (readLines room (n + 1) ls).map (e :: ·) := by
  have hvisible : ¬ line.all Text.isBlank = true := by simp [hline]
  exact if_neg hvisible

/-- A line without a separator is one line for the reader too. -/
theorem readLines_of_event (n : Nat) {e : Event Points} (hl : l.Written) (hevent : l.event = some e)
    (hsep : ∀ c ∈ l.chars, ¬ Json.Separator c) (hs : Follows s rest) :
    readLines room n (Text.lines (l.chars ++ s)) =
      match Event.ofLine room l.chars with
      | .error fault => .error ⟨n, fault⟩
      | .ok e => (readLines room (n + 1) (Text.lines rest)).map (e :: ·) := by
  obtain ⟨hfeed, hreturn, hwritten⟩ := hl
  rw [hevent] at hwritten
  have hbreak : ∀ c ∈ l.chars, Text.isBreak c = false :=
    fun c hc => not_break hwritten hfeed hreturn hc (hsep c hc)
  obtain ⟨before, tail, hbrace, _⟩ := brace_of_writtenAs hwritten
  have hmem : '\x7b' ∈ l.chars := by rw [hbrace]; simp
  rcases hs with ⟨rfl, rfl⟩ | rfl
  · rw [List.append_nil, Text.lines_of_no_break hbreak (List.ne_nil_of_mem hmem),
      readLines_visible n (not_blank_of_brace hmem), Text.withoutBreak_of_no_break hbreak]
    rfl
  · rw [Text.lines_of_break hbreak (by decide) (by decide),
      readLines_visible n (not_blank_of_brace (List.mem_append_left _ hmem)),
        Text.withoutBreak_break hbreak (by decide)]

/-- A line with a separator ends there for the reader, in the middle of a string. -/
theorem readLines_of_separator (n : Nat) {e : Event Points} (hl : l.Written)
    (hevent : l.event = some e) (hsep : ∃ c ∈ l.chars, Json.Separator c) (s : List Char) :
    ∃ bad, readLines room n (Text.lines (l.chars ++ s)) = .error bad := by
  classical
  obtain ⟨hfeed, hreturn, hwritten⟩ := hl
  rw [hevent] at hwritten
  obtain ⟨c, hfind⟩ := Option.isSome_iff_exists.mp (List.find?_isSome.mpr
    (hsep.imp fun c hc => ⟨hc.1, decide_eq_true hc.2⟩))
  obtain ⟨hc, a, b, hchars, ha⟩ := List.find?_eq_some_iff_append.mp hfind
  replace hc := of_decide_eq_true hc
  have hbreak : ∀ d ∈ a, Text.isBreak d = false := by
    intro d hd
    refine not_break hwritten hfeed hreturn (by rw [hchars]; exact List.mem_append_left _ hd) ?_
    simpa using ha d hd
  rw [hchars] at hwritten ⊢
  obtain ⟨⟨fault, hfault⟩, hbrace⟩ := ofLine_cut room hwritten hc
  rw [List.append_assoc, List.cons_append,
    Text.lines_of_break hbreak (separator_breaks hc).1 (separator_breaks hc).2,
    readLines_visible n (not_blank_of_brace (List.mem_append_left _ hbrace)),
    Text.withoutBreak_break hbreak (separator_breaks hc).1, hfault]
  exact ⟨_, rfl⟩

theorem joined_cons (l : Line) (ls : List Line) :
    ∃ s, joined (l :: ls) = l.chars ++ s ∧ Follows s (joined ls) := by
  cases ls with
  | nil => exact ⟨[], by simp [joined], .inl ⟨rfl, rfl⟩⟩
  | cons l' ls => exact ⟨'\n' :: joined (l' :: ls), by simp [joined], .inr rfl⟩

theorem return_not_mem_joined {ls : List Line} (hls : ∀ l ∈ ls, l.Written) : '\r' ∉ joined ls := by
  induction ls with
  | nil => simp [joined]
  | cons l ls ih =>
    obtain ⟨s, hjoined, hs⟩ := joined_cons l ls
    have hrest := ih fun l' hl' => hls l' (List.mem_cons_of_mem l hl')
    rw [hjoined, List.mem_append, not_or]
    refine ⟨(hls l (by simp)).2.1, ?_⟩
    rcases hs with ⟨rfl, _⟩ | rfl
    · simp
    · simpa using hrest

/-- By induction on the lines that were written: those that the reader makes of one of them, and
then the rest. -/
theorem readLines_joined (n : Nat) {ls : List Line} (hls : ∀ l ∈ ls, l.Written) :
    ((∀ l ∈ ls, l.Readable room) → ∃ es, readLines room n (Text.lines (joined ls)) = .ok es ∧
      es.map (·.json.settled) = (ls.filterMap Line.event).map (·.json.settled)) ∧
    ((¬ ∀ l ∈ ls, l.Readable room) →
    ∃ bad, readLines room n (Text.lines (joined ls)) = .error bad) := by
  induction ls generalizing n with
  | nil => exact ⟨fun _ => ⟨[], rfl, rfl⟩, fun hnot => absurd (by simp) hnot⟩
  | cons l ls ih =>
    obtain ⟨s, hjoined, hs⟩ := joined_cons l ls
    have hl := hls l (by simp)
    have hrest n := ih n fun l' hl' => hls l' (List.mem_cons_of_mem l hl')
    rw [hjoined, List.forall_mem_cons]
    cases hevent : l.event with
    | none =>
      obtain ⟨m, hm⟩ := readLines_of_blank n hl hevent hs
      have hreadable : l.Readable room := by simp [Line.Readable, hevent]
      rw [hm, List.filterMap_cons_none hevent]
      simpa [hreadable] using hrest m
    | some e =>
      have hwritten : e.WrittenAs l.chars := by
        have hmatch := hl.2.2
        rwa [hevent] at hmatch
      by_cases hsep : ∀ c ∈ l.chars, ¬ Json.Separator c
      · rw [readLines_of_event n hl hevent hsep hs, List.filterMap_cons_some hevent]
        obtain ⟨hread, hfail⟩ := ofLine_writtenAs room hwritten
        by_cases hlimit : Json.limit room e.json = .ok ()
        · obtain ⟨e', he', hsame⟩ := hread hlimit
          have hreadable : l.Readable room := by simpa [Line.Readable, hevent] using ⟨hsep, hlimit⟩
          rw [he']
          refine ⟨fun hall => ?_, fun hnot => ?_⟩
          · obtain ⟨es, hes, hmap⟩ := (hrest (n + 1)).1 hall.2
            exact ⟨e' :: es,
              by simp only [hes]; rfl, by rw [List.map_cons, List.map_cons, hmap, hsame]⟩
          · obtain ⟨bad, hbad⟩ := (hrest (n + 1)).2 fun hall => hnot ⟨hreadable, hall⟩
            exact ⟨bad, by simp only [hbad]; rfl⟩
        · obtain ⟨fault, hfault⟩ := hfail hlimit
          rw [hfault]
          exact ⟨fun hall => absurd (hall.1 e hevent).2 hlimit, fun _ => ⟨_, rfl⟩⟩
      · refine ⟨fun hall => absurd (hall.1 e hevent).1 hsep, fun _ => ?_⟩
        simp only [not_forall, not_not] at hsep
        obtain ⟨c, hc, hcsep⟩ := hsep
        exact readLines_of_separator n hl hevent ⟨c, hc, hcsep⟩ s

end Lines

/-- Take lines that write events as JSON objects, in any order of members, spacing and escaping, or
are blank, joined by line feeds. If no event is written with a raw separator or goes beyond a limit,
the events are read back in their order, with the same methods and parameters. Otherwise the
recording is refused. -/
theorem reading_undoes_writing (room : Nat) (ls : List Line) (hls : ∀ l ∈ ls, l.Written) :
    ((∀ l ∈ ls, l.Readable room) → ∃ es, read (joined ls) room = .ok es ∧
      es.map (·.json.settled) = (ls.filterMap Line.event).map (·.json.settled)) ∧
    ((¬ ∀ l ∈ ls, l.Readable room) → ∃ bad, read (joined ls) room = .error bad) := by
  rw [read, Text.foldReturns_of_not_mem (return_not_mem_joined hls)]
  exact readLines_joined 1 hls

/-- An event whose parameter holds a line separator, half of a pair and a number out of range. -/
def separatorEvent : Event Points :=
  ⟨TextLike.ofString "m", [(TextLike.ofString "a", .arr [.str [.char '\u2028'],
    .str [.half ⟨0xD800, by decide⟩], .real (.infinite false)])]⟩

def parameterText (separator : List Char) : List Char :=
  '[' :: (('"' :: (separator ++ ['"'])) ++
    ',' :: (['"', '\\', 'u', 'd', '8', '0', '0', '"'] ++ ',' :: ['1', 'e', '4', '0', '0']) ++ [']'])

def separatorText (separator : List Char) : List Char :=
  '\x7b' ::
    ("\"params\": \x7b\"a\":".toList ++
      (parameterText separator ++ "\x7d,\"method\":\"m\"".toList) ++ ['\x7d'])

theorem written_parameterText {x : List Char} (hx : Json.PointText (.char '\u2028') x) :
    (Json.arr [.str [.char '\u2028'], .str [.half ⟨0xD800, by decide⟩],
      .real (.infinite false)]).WrittenAs (parameterText x) := by
  have hgap := Json.Gap.nil
  have hsingle {p : Point} {x : List Char} (hp : Json.PointText p x) :
      (Json.str [p]).WrittenAs ('"' :: (x ++ ['"'])) :=
    Json.writtenAs_str.mpr ⟨x, rfl, by simpa using Json.PointsText.cons hp .nil (by simp)⟩
  have hhalf : (Json.str [.half ⟨0xD800, by decide⟩]).WrittenAs
      ['"', '\\', 'u', 'd', '8', '0', '0', '"'] :=
    hsingle (.half ⟨'d', '8', '0', '0', rfl, .inl rfl, .inl rfl, .inl rfl, .inl rfl⟩)
  have hdigits : Json.DigitsText ['4', '0', '0'] := by simp [Json.DigitsText]
  have hexponent : Json.ExponentText (some 400) ['e', '4', '0', '0'] := .plain (.inl rfl) hdigits
  have hreal : (Json.real (.infinite false)).WrittenAs ['1', 'e', '4', '0', '0'] := by
    rw [Json.WrittenAs]
    exact ⟨false, 1, [], [], some 400, _, .absent, hexponent, by simp,
      Decimal.stands_iff.mpr (by decide +kernel), rfl⟩
  refine Json.writtenAs_arr.mpr ⟨_, rfl, ?_⟩
  rw [Json.ItemsText]
  refine ⟨[], _, [], _, hgap, hsingle hx, hgap, rfl, .inr ⟨by simp, _, rfl, ?_⟩⟩
  rw [Json.ItemsText]
  refine ⟨[], _, [], _, hgap, hhalf, hgap, rfl, .inr ⟨by simp, _, rfl, ?_⟩⟩
  rw [Json.ItemsText]
  exact ⟨[], _, [], _, hgap, hreal, hgap, rfl, .inl ⟨rfl, rfl⟩⟩

theorem written_separatorText {x : List Char} (hx : Json.PointText (.char '\u2028') x) :
    separatorEvent.WrittenAs (separatorText x) := by
  have hgap := Json.Gap.nil
  have hraw (t : String) (ht : ∀ c ∈ t.toList, 0x20 ≤ c.toNat ∧ c ≠ '"' ∧ c ≠ '\\') :
      Json.StringText (TextLike.ofString t) ('"' :: (t.toList ++ ['"'])) :=
    ⟨t.toList, rfl, Json.pointsText_raw ht⟩
  have hparams : (Json.obj separatorEvent.params).WrittenAs
      ('\x7b' :: ("\"a\":".toList ++ parameterText x ++ ['\x7d'])) := by
    refine Json.writtenAs_obj.mpr ⟨by simp [separatorEvent], _, rfl, ?_⟩
    rw [separatorEvent, Json.MembersText]
    refine ⟨[], _, [], [], _, [], [], hgap, hraw "a" (by simp), hgap, hgap,
      written_parameterText hx, hgap, ?_, .inl ⟨rfl, rfl⟩⟩
    simp
  have hmethod : Json.MembersText [(methodName, .str (TextLike.ofString "m"))]
      "\"method\":\"m\"".toList := by
    rw [Json.MembersText]
    refine ⟨[], _, [], [], _, [], [], hgap, hraw "method" (by simp), hgap, hgap,
      Json.writtenAs_str.mpr (hraw "m" (by simp)), hgap, ?_, .inl ⟨rfl, rfl⟩⟩
    simp
  have hmembers : Json.MembersText
      [(paramsName, .obj separatorEvent.params), (methodName, .str (TextLike.ofString "m"))]
      ("\"params\": \x7b\"a\":".toList ++
        (parameterText x ++ "\x7d,\"method\":\"m\"".toList)) := by
    rw [Json.MembersText]
    refine ⟨[], _, [], [' '], _, [], _, hgap, hraw "params" (by simp), hgap, by simp [Json.Gap],
      hparams, hgap, ?_, .inr ⟨by simp, _, rfl, hmethod⟩⟩
    simp
  have hsettled : (Json.obj [(paramsName, .obj separatorEvent.params),
      (methodName, .str (TextLike.ofString "m"))]).settled = separatorEvent.json.settled := by
    have hle : methodName.map Point.code ≤ paramsName.map Point.code := by decide
    have hnot : ¬ paramsName.map Point.code ≤ methodName.map Point.code := by decide
    simp [Event.json, separatorEvent, Json.settled, Json.settledMembers, List.mergeSort,
      List.MergeSort.Internal.splitInTwo, hle, hnot]
  exact ⟨[], separatorText x, [], .obj [(paramsName, .obj separatorEvent.params),
    (methodName, .str (TextLike.ofString "m"))], by simp, hgap, hgap,
    Json.writtenAs_obj.mpr ⟨by decide, _, rfl, hmembers⟩, hsettled⟩

/-- Escaped, the separator comes back; raw, it ends the line in the middle of the string. -/
theorem reading_undoes_writing_lineSeparator :
    (∃ es, read (joined [⟨separatorText "\\u2028".toList, some separatorEvent⟩,
        ⟨" ".toList, none⟩]) 3 = .ok es ∧
      es.map (·.json.settled) = [separatorEvent.json.settled]) ∧
    ∃ bad, read (joined [⟨separatorText ['\u2028'], some separatorEvent⟩]) 3 = .error bad := by
  have hescaped : separatorEvent.WrittenAs (separatorText "\\u2028".toList) :=
    written_separatorText
      (.unit (by decide) ⟨'2', '0', '2', '8', rfl, .inl rfl, .inl rfl, .inl rfl, .inl rfl⟩)
  have hraw : separatorEvent.WrittenAs (separatorText ['\u2028']) :=
    written_separatorText (.raw (by decide) (by decide) (by decide))
  constructor
  · apply (reading_undoes_writing 3 _ _).1
    · intro l hl
      simp only [List.mem_cons, List.not_mem_nil, or_false] at hl
      rcases hl with rfl | rfl
      · rintro e ⟨⟩
        exact ⟨by simp [separatorText, parameterText, Json.Separator], rfl⟩
      · rintro e ⟨⟩
    · intro l hl
      simp only [List.mem_cons, List.not_mem_nil, or_false] at hl
      rcases hl with rfl | rfl
      · exact ⟨by decide, by decide, hescaped⟩
      · exact ⟨by decide, by decide, List.forall_mem_singleton.mpr rfl⟩
  · apply (reading_undoes_writing 3 _ _).2
    · intro hall
      have hraw := hall ⟨separatorText ['\u2028'], some separatorEvent⟩ (by simp) _ rfl
      exact hraw.1 '\u2028' (by decide) (.inr (.inl rfl))
    · intro l hl
      obtain rfl := List.mem_singleton.mp hl
      exact ⟨by decide, by decide, hraw⟩

end Recording
end NotebookHub
