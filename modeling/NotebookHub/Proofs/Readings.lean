import NotebookHub.Proofs.Spellings

namespace NotebookHub.Json

section Heads

theorem number_start (negative : Bool) (whole : Nat) (s : List Char) :
    ∃ c t, sign negative ++ (Nat.toDigits 10 whole ++ s) = c :: t ∧
      (c = '-' ∨ c.isDigit = true) := by
  cases negative with
  | true => exact ⟨'-', _, rfl, .inl rfl⟩
  | false =>
    obtain ⟨c, cs, hcs⟩ :=
      List.exists_cons_of_length_pos (Nat.length_toDigits_pos (b := 10) (n := whole))
    exact ⟨c, cs ++ s, by rw [hcs]; rfl, .inr (digits_toDigits whole c (by simp [hcs]))⟩

theorem number_head {c : Char} (hc : c = '-' ∨ c.isDigit = true) :
    isSpace c = false ∧ c.toNat < 0x80 ∧ c ≠ ']' ∧ c ≠ '"' ∧ c ≠ '\x7b' ∧ c ≠ '[' ∧ c ≠ 'n' ∧
      c ≠ 't' ∧ c ≠ 'f' ∧
      c ≠ 'N' := by
  have hdigit {d : Char} (hd : d.isDigit = false) (hm : d ≠ '-') : c ≠ d := by
    rintro rfl
    rcases hc with rfl | hc
    · exact hm rfl
    · rw [hd] at hc
      cases hc
  refine ⟨by simp [isSpace, hdigit], ?_, hdigit rfl (by decide), hdigit rfl (by decide),
    hdigit rfl (by decide),
    hdigit rfl (by decide), hdigit rfl (by decide), hdigit rfl (by decide), hdigit rfl (by decide),
    hdigit rfl (by decide)⟩
  rcases hc with rfl | hc
  · decide
  · have hhigh := (Char.isDigit_iff_toNat.mp hc).2
    simp only [Char.reduceToNat] at hhigh
    omega

/-- A value begins with a visible character, which is not a closing bracket. -/
theorem start_of_writtenAs {v : Json Points} {s : List Char} (h : v.WrittenAs s) :
    ∃ c t, s = c :: t ∧ isSpace c = false ∧ c.toNat < 0x80 ∧ c ≠ ']' := by
  cases v with
  | null =>
    obtain rfl : s = _ := by simpa only [WrittenAs] using h
    exact ⟨_, _, rfl, by decide⟩
  | bool b =>
    cases b with
    | true | false =>
      obtain rfl : s = _ := by simpa only [WrittenAs] using h
      exact ⟨_, _, rfl, by decide⟩
  | int n =>
    obtain ⟨negative, whole, _, rfl⟩ : IntegerText n s := by simpa only [WrittenAs] using h
    obtain ⟨c, t, hs, hc⟩ := number_start negative whole []
    exact ⟨c, t,
      by simpa using hs, (number_head hc).1, (number_head hc).2.1, (number_head hc).2.2.1⟩
  | real x =>
    obtain ⟨negative, whole, _, _, _, _, _, _, _, _, rfl⟩ : RealText x s := by
      simpa only [WrittenAs] using h
    obtain ⟨c, t, hs, hc⟩ := number_start negative whole _
    exact ⟨c, t, hs, (number_head hc).1, (number_head hc).2.1, (number_head hc).2.2.1⟩
  | str t =>
    obtain ⟨_, rfl, _⟩ := writtenAs_str.mp h
    exact ⟨_, _, rfl, by decide⟩
  | arr vs =>
    obtain ⟨_, rfl, _⟩ := writtenAs_arr.mp h
    exact ⟨_, _, rfl, by decide⟩
  | obj ms =>
    obtain ⟨_, _, rfl, _⟩ := writtenAs_obj.mp h
    exact ⟨_, _, rfl, by decide⟩

/-- The text of a value begins as the value does, whatever space and text there is around it. -/
theorem skip_value {v : Json Points} {before text : List Char} (hbefore : Gap before)
    (h : v.WrittenAs text) (rest : List Char) : skip (before ++ (text ++ rest)) = text ++ rest := by
  obtain ⟨c, t, rfl, hc, _⟩ := start_of_writtenAs h
  rw [skip_gap hbefore, List.cons_append, skip_cons hc]

/-- What stands in a list begins with an item, after space. -/
theorem skip_items {vs : List (Json Points)} {s : List Char} (hvs : vs ≠ []) (h : ItemsText vs s)
    (rest : List Char) :
    ∃ c t, skip (s ++ rest) = c :: t ∧ c ≠ ']' := by
  obtain ⟨v, vs, rfl⟩ := List.exists_cons_of_ne_nil hvs
  rw [ItemsText] at h
  obtain ⟨before, text, after, tail, hbefore, hv, _, rfl, _⟩ := h
  obtain ⟨c, t, hstart, _, _, hc⟩ := start_of_writtenAs hv
  rw [List.append_assoc, List.append_assoc, skip_value hbefore hv, hstart]
  exact ⟨c, _, rfl, hc⟩

theorem skip_members {ms : List (Points × Json Points)} {s : List Char} (hms : ms ≠ [])
    (h : MembersText ms s) (rest : List Char) : ∃ c t, skip (s ++ rest) = c :: t ∧ c ≠ '\x7d' := by
  obtain ⟨⟨name, v⟩, ms, rfl⟩ := List.exists_cons_of_ne_nil hms
  rw [MembersText] at h
  obtain ⟨before, nameText, _, _, _, _, _, hbefore, ⟨body, rfl, _⟩, _, _, _, _, rfl, _⟩ := h
  rw [List.append_assoc, skip_gap hbefore, List.cons_append, List.cons_append,
    skip_cons (by decide)]
  exact ⟨_, _, rfl, by decide⟩

end Heads

section Values

theorem value_number {fuel room : Nat} {c : Char} (hc : c = '-' ∨ c.isDigit = true)
    (t : List Char) :
    value (fuel + 1) room (c :: t) = number (c :: t) := by
  obtain ⟨_, _, _, hquote, hbrace, hbracket, hn, ht, hf, hnan⟩ := number_head hc
  rw [value]
  all_goals
    intros
    simp_all

theorem value_number_text {negative : Bool} {whole : Nat} {frac fracText expText s rest : List Char}
    {exp : Option Int} {fuel room : Nat} (hfrac : FractionText frac fracText)
    (hexp : ExponentText exp expText) (hrest : Stops rest)
    (hs : s = sign negative ++ (Nat.toDigits 10 whole ++ (fracText ++ expText))) :
    value (fuel + 1) room (s ++ rest) =
      if frac.isEmpty && exp.isNone then
        (checkDigits (Nat.toDigits 10 whole).length).map
        fun _ => (.int (signed negative whole), rest)
      else
        .ok (.real (.ofDecimal negative
          ⟨Text.asciiValue (Nat.toDigits 10 whole ++ frac), exp.getD 0 - frac.length⟩), rest) := by
  obtain ⟨c, t, hct, hc⟩ := number_start negative whole (fracText ++ (expText ++ rest))
  rw [← number_text negative whole hfrac hexp hrest, hs]
  simp only [List.append_assoc]
  rw [hct]
  exact value_number hc t

theorem natAbs_signed (negative : Bool) (n : Nat) : (signed negative n).natAbs = n := by
  cases negative <;> simp [signed]

/-- A list goes on after its bracket, unless it closes at once. -/
theorem value_list {fuel room : Nat} {c : Char} {t t' : List Char} (ht : skip t = c :: t')
    (hc : c ≠ ']') :
    value (fuel + 1) (room + 1) ('[' :: t) = items fuel room [] (skip t) := by
  rw [value, ht]
  split
  · rename_i he
    exact absurd (List.cons.inj he).1 hc
  · rfl

theorem value_object {fuel room : Nat} {c : Char} {t t' : List Char} (ht : skip t = c :: t')
    (hc : c ≠ '\x7d') :
    value (fuel + 1) (room + 1) ('\x7b' :: t) = members fuel room [] (skip t) := by
  rw [value, ht]
  split
  · rename_i he
    exact absurd (List.cons.inj he).1 hc
  · rfl

/-- The name of a member is read with its colon and the space after it. -/
theorem memberName_text {name : Points} {nameText after : List Char}
    (hname : StringText name nameText) (hafter : Gap after) (rest : List Char) :
    memberName? (nameText ++ (after ++ ':' :: rest)) = some (name, skip rest) := by
  obtain ⟨body, rfl, hbody⟩ := hname
  have hstring := string_stringText hbody (after ++ ':' :: rest)
  simp only [List.cons_append, List.append_assoc, List.nil_append, memberName?, hstring,
    Option.bind_some,
    skip_gap hafter, skip_cons (c := ':') (by decide)]

theorem setMember_new {ms : List (Points × Json Points)} {name : Points}
    (h : name ∉ ms.map Prod.fst) (v : Json Points) :
    setMember ms name v = ms ++ [(name, v)] := by
  induction ms with
  | nil => rfl
  | cons m ms ih =>
    simp only [List.map_cons, List.mem_cons, not_or] at h
    rw [setMember, if_neg fun he => h.1 he.symm, ih h.2]
    rfl

section Steps

variable {fuel room : Nat} {v : Json Points} {name : Points} {t after s rest : List Char}

/-- After an item and a comma come the items that follow. -/
theorem items_more (hvalue : value fuel room t = (limit room v).map fun _ => (v, after ++ ',' :: s))
    (hafter : Gap after) (done : List (Json Points)) :
    items (fuel + 1) room done t = (limit room v).bind fun _ =>
      items fuel room (v :: done) (skip s) := by
  rw [items, hvalue]
  cases limit room v with
  | error e => rfl
  | ok _ =>
    simp only [Except.map, Except.bind, skip_gap hafter, skip_cons (c := ',') (by decide)]

/-- The last item ends the list. -/
theorem items_end (hvalue : value fuel room t = (limit room v).map fun _ => (v, after ++ ']' :: s))
    (hafter : Gap after) (done : List (Json Points)) :
    items (fuel + 1) room done t = (limit room v).map fun _ => (.arr (v :: done).reverse, s) := by
  rw [items, hvalue]
  cases limit room v with
  | error e => rfl
  | ok _ =>
    simp only [Except.map, Except.bind, skip_gap hafter, skip_cons (c := ']') (by decide)]

theorem members_more (hmember : memberName? t = some (name, rest))
    (hvalue : value fuel room rest = (limit room v).map fun _ => (v, after ++ ',' :: s))
    (hafter : Gap after)
    (done : List (Points × Json Points)) :
    members (fuel + 1) room done t =
      (limit room v).bind fun _ => members fuel room (setMember done name v) (skip s) := by
  rw [members, hmember]
  simp only [hvalue]
  cases limit room v with
  | error e => rfl
  | ok _ =>
    simp only [Except.map, Except.bind, skip_gap hafter, skip_cons (c := ',') (by decide)]

theorem members_end (hmember : memberName? t = some (name, rest))
    (hvalue : value fuel room rest = (limit room v).map fun _ => (v, after ++ '\x7d' :: s))
    (hafter : Gap after) (done : List (Points × Json Points)) :
    members (fuel + 1) room done t = (limit room v).map
      fun _ => (.obj (setMember done name v), s) := by
  rw [members, hmember]
  simp only [hvalue]
  cases limit room v with
  | error e => rfl
  | ok _ =>
    simp only [Except.map, Except.bind, skip_gap hafter, skip_cons (c := '\x7d') (by decide)]

end Steps

mutual

/-- A value is read as what it is, and as far as its text goes, unless it goes beyond a limit. -/
theorem value_writtenAs :
    (v : Json Points) → ∀ (fuel room : Nat) (rest : List Char) {s : List Char}, v.WrittenAs s →
    Stops rest → 2 * s.length ≤ fuel → value fuel room (s ++ rest) = (limit room v).map
      fun _ => (v, rest) := by
  intro v fuel room rest s hv hrest hfuel
  obtain ⟨c, t, hstart, _⟩ := start_of_writtenAs hv
  obtain ⟨fuel, rfl⟩ : ∃ n, fuel = n + 1 := by
    refine ⟨fuel - 1, ?_⟩
    rw [hstart, List.length_cons] at hfuel
    omega
  clear hstart
  match v with
  | .null =>
    obtain rfl : s = _ := by simpa only [WrittenAs] using hv
    rfl
  | .bool true =>
    obtain rfl : s = _ := by simpa only [WrittenAs] using hv
    rfl
  | .bool false =>
    obtain rfl : s = _ := by simpa only [WrittenAs] using hv
    rfl
  | .int n =>
    obtain ⟨negative, whole, rfl, hs⟩ : IntegerText n s := by simpa only [WrittenAs] using hv
    rw [value_number_text .absent .absent hrest (by simpa using hs)]
    simp [limit, natAbs_signed]
  | .real x =>
    obtain ⟨negative, whole, frac, fracText, exp, expText, hfrac, hexp, hnot, hx, hs⟩ :
        RealText x s := by
      simpa only [WrittenAs] using hv
    rw [value_number_text hfrac hexp hrest hs, if_neg, hx.ofDecimal_eq]
    · rfl
    · intro hboth
      simp only [Bool.and_eq_true, List.isEmpty_iff, Option.isNone_iff_eq_none] at hboth
      rcases hnot with hnot | hnot
      · exact hnot hboth.1
      · simp [hboth.2] at hnot
  | .str t =>
    obtain ⟨body, rfl, hbody⟩ := writtenAs_str.mp hv
    have hstring := string_stringText hbody rest
    rw [List.cons_append, List.append_assoc, List.singleton_append, value, hstring]
    rfl
  | .arr vs =>
    obtain ⟨body, rfl, hbody⟩ := writtenAs_arr.mp hv
    rw [List.cons_append, List.append_assoc, List.singleton_append]
    match room with
    | 0 => rfl
    | room + 1 =>
      by_cases hvs : vs = []
      · subst hvs
        have hgap : Gap body := by simpa only [ItemsText] using hbody
        rw [value, skip_gap hgap, skip_cons (by decide)]
        rfl
      · have hitems := items_writtenAs vs fuel room [] rest hvs hbody
          (by simp only [List.length_cons, List.length_append, List.length_nil] at hfuel; omega)
        obtain ⟨c, t, hskip, hc⟩ := skip_items hvs hbody (']' :: rest)
        rw [value_list hskip hc, hitems]
        simp [limit]
  | .obj ms =>
    obtain ⟨hnames, body, rfl, hbody⟩ := writtenAs_obj.mp hv
    rw [List.cons_append, List.append_assoc, List.singleton_append]
    match room with
    | 0 => rfl
    | room + 1 =>
      by_cases hms : ms = []
      · subst hms
        have hgap : Gap body := by simpa only [MembersText] using hbody
        rw [value, skip_gap hgap, skip_cons (by decide)]
        rfl
      · have hmembers := members_writtenAs ms fuel room [] rest hms hbody
          (by simpa using hnames)
          (by simp only [List.length_cons, List.length_append, List.length_nil] at hfuel; omega)
        obtain ⟨c, t, hskip, hc⟩ := skip_members hms hbody ('\x7d' :: rest)
        rw [value_object hskip hc, hmembers]
        simp [limit]

theorem items_writtenAs :
    (vs : List (Json Points)) → ∀ (fuel room : Nat) (done : List (Json Points)) (rest : List Char)
    {s : List Char}, vs ≠ [] → ItemsText vs s → 2 * s.length + 1 ≤ fuel →
    items fuel room done (skip (s ++ ']' :: rest)) =
      (limitItems room vs).map fun _ => (.arr (done.reverse ++ vs), rest) := by
  intro vs fuel room done rest s hvs hs hfuel
  obtain ⟨fuel, rfl⟩ : ∃ n, fuel = n + 1 := ⟨fuel - 1, by omega⟩
  match vs with
  | [] => exact absurd rfl hvs
  | v :: vs =>
    rw [ItemsText] at hs
    obtain ⟨before, text, after, tail, hbefore, hv, hafter, rfl, htail⟩ := hs
    simp only [List.length_append] at hfuel
    have hstops : Stops (after ++ (tail ++ ']' :: rest)) := by
      apply hafter.stops
      rcases htail with ⟨_, rfl⟩ | ⟨_, _, rfl, _⟩
      · exact Stops.cons (by simp) _
      · exact Stops.cons (by simp) _
    have hvalue := value_writtenAs v fuel room (after ++ (tail ++ ']' :: rest)) hv hstops
      (by omega)
    simp only [List.append_assoc]
    rw [skip_value hbefore hv, limitItems]
    rcases htail with ⟨rfl, rfl⟩ | ⟨hne, next, rfl, hnext⟩
    · rw [List.nil_append] at hvalue ⊢
      rw [items_end hvalue hafter, List.reverse_cons]
      cases limit room v <;> rfl
    · simp only [List.length_cons] at hfuel
      have hitems := items_writtenAs vs fuel room (v :: done) rest hne hnext (by omega)
      rw [List.cons_append] at hvalue ⊢
      rw [items_more hvalue hafter, hitems, List.reverse_cons, List.append_assoc,
        List.singleton_append]
      cases limit room v <;> rfl

theorem members_writtenAs :
    (ms : List (Points × Json Points)) → ∀ (fuel room : Nat) (done : List (Points × Json Points))
    (rest : List Char) {s : List Char}, ms ≠ [] → MembersText ms s →
    ((done ++ ms).map Prod.fst).Nodup →
    2 * s.length + 1 ≤ fuel →
    members fuel room done (skip (s ++ '\x7d' :: rest)) =
      (limitMembers room ms).map fun _ => (.obj (done ++ ms), rest) := by
  intro ms fuel room done rest s hms hs hnames hfuel
  obtain ⟨fuel, rfl⟩ : ∃ n, fuel = n + 1 := ⟨fuel - 1, by omega⟩
  match ms with
  | [] => exact absurd rfl hms
  | (name, v) :: ms =>
    rw [MembersText] at hs
    obtain ⟨before, nameText, after, middle, text, last, tail, hbefore, hname, hafter, hmiddle,
      hv, hlast, rfl,
      htail⟩ := hs
    simp only [List.length_append, List.length_cons] at hfuel
    have hstops : Stops (last ++ (tail ++ '\x7d' :: rest)) := by
      apply hlast.stops
      rcases htail with ⟨_, rfl⟩ | ⟨_, _, rfl, _⟩
      · exact Stops.cons (by simp) _
      · exact Stops.cons (by simp) _
    have hvalue := value_writtenAs v fuel room (last ++ (tail ++ '\x7d' :: rest)) hv hstops
      (by omega)
    have hmember :=
      memberName_text hname hafter (middle ++ (text ++ (last ++ (tail ++ '\x7d' :: rest))))
    have hmore : ((done ++ [(name, v)] ++ ms).map Prod.fst).Nodup := by simpa using hnames
    have hnew : name ∉ done.map Prod.fst := by
      rw [List.map_append, List.nodup_append] at hnames
      intro hin
      exact hnames.2.2 name hin name (by simp) rfl
    obtain ⟨body, hquote⟩ : ∃ body, nameText = '"' :: body := by
      obtain ⟨body, rfl, _⟩ := hname
      exact ⟨_, rfl⟩
    have hskip : skip
      (nameText ++ (after ++ ':' :: (middle ++ (text ++ (last ++ (tail ++ '\x7d' :: rest)))))) =
        nameText ++ (after ++ ':' :: (middle ++ (text ++ (last ++ (tail ++ '\x7d' :: rest))))) := by
      rw [hquote, List.cons_append, skip_cons (by decide)]
    rw [skip_value hmiddle hv] at hmember
    simp only [List.append_assoc, List.cons_append]
    rw [skip_gap hbefore, hskip, limitMembers]
    rcases htail with ⟨rfl, rfl⟩ | ⟨hne, next, rfl, hnext⟩
    · rw [List.nil_append] at hvalue hmember ⊢
      rw [members_end hmember hvalue hlast, setMember_new hnew]
      cases limit room v <;> rfl
    · simp only [List.length_cons] at hfuel
      have hmembers :=
        members_writtenAs ms fuel room (done ++ [(name, v)]) rest hne hnext hmore (by omega)
      rw [List.cons_append] at hvalue hmember ⊢
      rw [members_more hmember hvalue hlast, setMember_new hnew, hmembers, List.append_assoc,
        List.singleton_append]
      cases limit room v <;> rfl

end

end Values

section Characters

/-- JSON has no control characters, but for space between the parts. -/
def Legal (c : Char) : Prop := c ∈ ['\t', '\n', '\r'] ∨ 0x20 ≤ c.toNat

theorem Gap.legal {s : List Char} (hs : Gap s) : ∀ c ∈ s, Legal c := by
  intro c hc
  have hmem := hs c hc
  simp only [List.mem_cons, List.not_mem_nil, or_false] at hmem
  rcases hmem with rfl | rfl | rfl | rfl
  · exact .inr (by decide)
  all_goals exact .inl (by simp)

theorem Gap.not_separator {s : List Char} (hs : Gap s) {c : Char} (hc : Separator c) : c ∉ s := by
  intro hmem
  have hspace := hs c hmem
  rcases hc with rfl | rfl | rfl <;> simp at hspace

theorem digits_chars {ds : List Char} (hds : ∀ c ∈ ds, c.isDigit = true) :
    ∀ c ∈ ds, 0x20 ≤ c.toNat ∧ c.toNat < 0x80 := by
  intro c hc
  obtain ⟨hlow, hhigh⟩ := Char.isDigit_iff_toNat.mp (hds c hc)
  simp only [Char.reduceToNat] at hlow hhigh
  omega

theorem number_chars {frac fracText expText : List Char} {exp : Option Int} (negative : Bool)
    (whole : Nat) (hfrac : FractionText frac fracText) (hexp : ExponentText exp expText) :
    ∀ c ∈ sign negative ++ (Nat.toDigits 10 whole ++ (fracText ++ expText)), 0x20 ≤ c.toNat ∧
      c.toNat < 0x80 := by
  intro c hc
  simp only [List.mem_append] at hc
  rcases hc with hc | hc | hc | hc
  · cases negative with
    | true =>
      obtain rfl := List.mem_singleton.mp hc
      decide
    | false => cases hc
  · exact digits_chars (digits_toDigits whole) c hc
  · cases hfrac with
    | absent => cases hc
    | present hds =>
      rcases List.mem_cons.mp hc with rfl | hc
      · decide
      · exact digits_chars hds.2 c hc
  · cases hexp with
    | absent => cases hc
    | plain he hds =>
      rcases List.mem_cons.mp hc with rfl | hc
      · rcases he with rfl | rfl <;> decide
      · exact digits_chars hds.2 c hc
    | plus he hds | minus he hds =>
      rcases List.mem_cons.mp hc with rfl | hc
      · rcases he with rfl | rfl <;> decide
      rcases List.mem_cons.mp hc with rfl | hc
      · decide
      · exact digits_chars hds.2 c hc

theorem legal_stringText {t : Points} {s : List Char} (h : StringText t s) : ∀ c ∈ s, Legal c := by
  obtain ⟨body, rfl, hbody⟩ := h
  have hall : ∀ c ∈ body, 0x20 ≤ c.toNat := by
    induction hbody with
    | nil => simp
    | cons hx _ _ ih =>
      intro d hd
      rcases List.mem_append.mp hd with hd | hd
      · rcases pointText_chars hx with ⟨_, rfl, hlow⟩ | hascii
        · obtain rfl := List.mem_singleton.mp hd
          exact hlow
        · exact (hascii d hd).1
      · exact ih d hd
  intro c hc
  simp only [List.mem_cons, List.mem_append, List.not_mem_nil, or_false] at hc
  rcases hc with rfl | hc | rfl
  · exact .inr (by decide)
  · exact .inr (hall c hc)
  · exact .inr (by decide)

mutual

theorem legal_writtenAs : (v : Json Points) → ∀ {s : List Char}, v.WrittenAs s →
    ∀ c ∈ s, Legal c := by
  intro v s hv c hc
  match v with
  | .null | .bool true | .bool false =>
    obtain rfl : s = _ := by simpa only [WrittenAs] using hv
    simp only [List.mem_cons, List.not_mem_nil, or_false] at hc
    rcases hc with rfl | rfl | rfl | rfl | rfl <;> exact .inr (by decide)
  | .int n =>
    obtain ⟨negative, whole, rfl, rfl⟩ : IntegerText n s := by simpa only [WrittenAs] using hv
    exact .inr (number_chars negative whole .absent .absent c (by simpa using hc)).1
  | .real x =>
    obtain ⟨negative, whole, _, _, _, _, hfrac, hexp, _, _, rfl⟩ : RealText x s := by
      simpa only [WrittenAs] using hv
    exact .inr (number_chars negative whole hfrac hexp c hc).1
  | .str t => exact legal_stringText (writtenAs_str.mp hv) c hc
  | .arr vs =>
    obtain ⟨body, rfl, hbody⟩ := writtenAs_arr.mp hv
    simp only [List.mem_cons, List.mem_append, List.not_mem_nil, or_false] at hc
    rcases hc with rfl | hc | rfl
    · exact .inr (by decide)
    · exact legal_itemsText vs hbody c hc
    · exact .inr (by decide)
  | .obj ms =>
    obtain ⟨_, body, rfl, hbody⟩ := writtenAs_obj.mp hv
    simp only [List.mem_cons, List.mem_append, List.not_mem_nil, or_false] at hc
    rcases hc with rfl | hc | rfl
    · exact .inr (by decide)
    · exact legal_membersText ms hbody c hc
    · exact .inr (by decide)

theorem legal_itemsText : (vs : List (Json Points)) → ∀ {s : List Char}, ItemsText vs s →
    ∀ c ∈ s, Legal c := by
  intro vs s hs c hc
  match vs with
  | [] =>
    have hgap : Gap s := by simpa only [ItemsText] using hs
    exact hgap.legal c hc
  | v :: vs =>
    rw [ItemsText] at hs
    obtain ⟨before, text, after, tail, hbefore, hv, hafter, rfl, htail⟩ := hs
    simp only [List.mem_append] at hc
    rcases hc with hc | hc | hc | hc
    · exact hbefore.legal c hc
    · exact legal_writtenAs v hv c hc
    · exact hafter.legal c hc
    · rcases htail with ⟨_, rfl⟩ | ⟨_, next, rfl, hnext⟩
      · cases hc
      rcases List.mem_cons.mp hc with rfl | hc
      · exact .inr (by decide)
      · exact legal_itemsText vs hnext c hc

theorem legal_membersText :
    (ms : List (Points × Json Points)) → ∀ {s : List Char}, MembersText ms s →
    ∀ c ∈ s, Legal c := by
  intro ms s hs c hc
  match ms with
  | [] =>
    have hgap : Gap s := by simpa only [MembersText] using hs
    exact hgap.legal c hc
  | (name, v) :: ms =>
    rw [MembersText] at hs
    obtain ⟨before, nameText, after, middle, text, last, tail, hbefore, hname, hafter, hmiddle,
      hv, hlast, rfl,
      htail⟩ := hs
    simp only [List.mem_append, List.mem_cons] at hc
    rcases hc with hc | hc | hc | rfl | hc | hc | hc | hc
    · exact hbefore.legal c hc
    · exact legal_stringText hname c hc
    · exact hafter.legal c hc
    · exact .inr (by decide)
    · exact hmiddle.legal c hc
    · exact legal_writtenAs v hv c hc
    · exact hlast.legal c hc
    · rcases htail with ⟨_, rfl⟩ | ⟨_, next, rfl, hnext⟩
      · cases hc
      rcases List.mem_cons.mp hc with rfl | hc
      · exact .inr (by decide)
      · exact legal_membersText ms hnext c hc

end

/-- Numbers are written in ASCII, as is all else outside of strings. -/
theorem not_separator_of_ascii {s : List Char} (hs : ∀ c ∈ s, 0x20 ≤ c.toNat ∧ c.toNat < 0x80)
    {c : Char} (hc : Separator c) : c ∉ s := fun hmem => hc.not_ascii (hs c hmem).2

/-- What is cut in a part, or before one, begins with the space in front of the part. -/
theorem cut_gap {a b before t : List Char} {c : Char} (hbefore : Gap before) (hc : Separator c)
    (h : a ++ c :: b = before ++ t) : ∃ a', a = before ++ a' ∧ a' ++ c :: b = t := by
  rcases cut_append h with ⟨b', rfl⟩ | hcut
  · exact absurd (by simp) (hbefore.not_separator hc)
  · exact hcut

/-- A mark between parts is no separator. -/
theorem cut_mark {a b t : List Char} {c d : Char} (hc : Separator c) (hd : d.toNat < 0x80)
    (h : a ++ c :: b = d :: t) : ∃ a', a = d :: a' ∧ a' ++ c :: b = t := by
  cases a with
  | nil =>
    obtain rfl := (List.cons.inj h).1
    exact absurd hd hc.not_ascii
  | cons e a =>
    obtain ⟨rfl, ht⟩ := List.cons.inj h
    exact ⟨a, rfl, ht⟩

/-- What is left of a value that is cut begins as the value does. -/
theorem cut_start {v : Json Points} {a b : List Char} {c : Char} (hv : v.WrittenAs (a ++ c :: b))
    (hc : Separator c) :
    ∃ d t, a = d :: t ∧ isSpace d = false ∧ d ≠ ']' := by
  obtain ⟨d, t, hstart, hspace, hascii, hne⟩ := start_of_writtenAs hv
  obtain ⟨a, rfl, _⟩ := cut_mark hc hascii hstart
  exact ⟨d, a, rfl, hspace, hne⟩

mutual

/-- A value that is cut off before a separator is not read. -/
theorem value_cut : (v : Json Points) → ∀ (fuel room : Nat) {a b : List Char} {c : Char},
    v.WrittenAs (a ++ c :: b) → Separator c → 2 * a.length ≤ fuel →
      ∃ e, value fuel room a = .error e := by
  intro v fuel room a b c hv hc hfuel
  match fuel with
  | 0 => exact ⟨.malformed, rfl⟩
  | fuel + 1 =>
  have hmem : c ∈ a ++ c :: b := by simp
  match v with
  | .null | .bool true | .bool false =>
    rw [WrittenAs] at hv
    rw [hv] at hmem
    exact absurd hmem (not_separator_of_ascii (by simp) hc)
  | .int n =>
    obtain ⟨negative, whole, rfl, hs⟩ : IntegerText n (a ++ c :: b) := by
      simpa only [WrittenAs] using hv
    rw [hs] at hmem
    exact absurd (by simpa using hmem)
      (not_separator_of_ascii (number_chars negative whole .absent .absent) hc)
  | .real x =>
    obtain ⟨negative, whole, _, _, _, _, hfrac, hexp, _, _, hs⟩ : RealText x (a ++ c :: b) := by
      simpa only [WrittenAs] using hv
    rw [hs] at hmem
    exact absurd hmem (not_separator_of_ascii (number_chars negative whole hfrac hexp) hc)
  | .str t =>
    obtain ⟨body, hs, hbody⟩ := writtenAs_str.mp hv
    obtain ⟨a, rfl, hcut⟩ := cut_mark hc (by decide) hs
    rcases cut_append hcut with ⟨b', rfl⟩ | ⟨_, _, hlast⟩
    · exact ⟨.malformed, by rw [value, string_cut hbody hc]⟩
    · obtain ⟨_, rfl, hnil⟩ := cut_mark hc (by decide) hlast
      simp at hnil
  | .arr vs =>
    obtain ⟨body, hs, hbody⟩ := writtenAs_arr.mp hv
    obtain ⟨a, rfl, hcut⟩ := cut_mark hc (by decide) hs
    match room with
    | 0 => exact ⟨.tooDeep, rfl⟩
    | room + 1 =>
      rcases cut_append hcut with ⟨b', rfl⟩ | ⟨_, _, hlast⟩
      · simp only [List.length_cons] at hfuel
        obtain ⟨e, d, t, he, hskip, hd⟩ := items_cut vs fuel room [] hbody hc (by omega)
        exact ⟨e, by rw [value_list hskip hd, he]⟩
      · obtain ⟨_, rfl, hnil⟩ := cut_mark hc (by decide) hlast
        simp at hnil
  | .obj ms =>
    obtain ⟨_, body, hs, hbody⟩ := writtenAs_obj.mp hv
    obtain ⟨a, rfl, hcut⟩ := cut_mark hc (by decide) hs
    match room with
    | 0 => exact ⟨.tooDeep, rfl⟩
    | room + 1 =>
      rcases cut_append hcut with ⟨b', rfl⟩ | ⟨_, _, hlast⟩
      · simp only [List.length_cons] at hfuel
        obtain ⟨e, d, t, he, hskip, hd⟩ := members_cut ms fuel room [] hbody hc (by omega)
        exact ⟨e, by rw [value_object hskip hd, he]⟩
      · obtain ⟨_, rfl, hnil⟩ := cut_mark hc (by decide) hlast
        simp at hnil

/-- The same for what stands in a list, which begins with an item after space. -/
theorem items_cut :
    (vs : List (Json Points)) → ∀ (fuel room : Nat) (done : List (Json Points))
    {a b : List Char} {c : Char},
    ItemsText vs (a ++ c :: b) → Separator c → 2 * a.length + 1 ≤ fuel →
    ∃ e d t, items fuel room done (skip a) = .error e ∧ skip a = d :: t ∧ d ≠ ']' := by
  intro vs fuel room done a b c hs hc hfuel
  obtain ⟨fuel, rfl⟩ : ∃ n, fuel = n + 1 := ⟨fuel - 1, by omega⟩
  match vs with
  | [] =>
    have hgap : Gap (a ++ c :: b) := by simpa only [ItemsText] using hs
    exact absurd (by simp) (hgap.not_separator hc)
  | v :: vs =>
    rw [ItemsText] at hs
    obtain ⟨before, text, after, tail, hbefore, hv, hafter, hall, htail⟩ := hs
    obtain ⟨a₁, rfl, hitem⟩ := cut_gap hbefore hc hall
    rw [List.length_append] at hfuel
    rw [skip_gap hbefore]
    rcases cut_append hitem with ⟨b', rfl⟩ | ⟨a₂, rfl, hend⟩
    · obtain ⟨d, t, rfl, hd, hne⟩ := cut_start hv hc
      obtain ⟨e, he⟩ := value_cut v fuel room hv hc (by omega)
      rw [skip_cons hd]
      exact ⟨e, d, t, by rw [items, he]; rfl, rfl, hne⟩
    · obtain ⟨a₃, rfl, hcomma⟩ := cut_gap hafter hc hend
      rcases htail with ⟨_, rfl⟩ | ⟨_, next, rfl, hnext⟩
      · simp at hcomma
      obtain ⟨a₄, rfl, rfl⟩ := cut_mark hc (by decide) hcomma
      simp only [List.length_append, List.length_cons] at hfuel
      obtain ⟨d, t, hstart, _, _, hne⟩ := start_of_writtenAs hv
      have hvalue := value_writtenAs v fuel room (after ++ ',' :: a₄) hv
        (hafter.stops (Stops.cons (by simp) _)) (by omega)
      obtain ⟨e, _, _, he, _⟩ := items_cut vs fuel room (v :: done) hnext hc (by omega)
      have hskip := skip_value Gap.nil hv (after ++ ',' :: a₄)
      rw [List.nil_append] at hskip
      have hfails : ∃ e, items (fuel + 1) room done (text ++ (after ++ ',' :: a₄)) = .error e := by
        rw [items_more hvalue hafter, he]
        cases limit room v with
        | error e => exact ⟨e, rfl⟩
        | ok _ => exact ⟨e, rfl⟩
      obtain ⟨e, he⟩ := hfails
      exact ⟨e, d, _, by rw [hskip, he], by rw [hskip, hstart, List.cons_append], hne⟩

theorem members_cut :
    (ms : List (Points × Json Points)) → ∀ (fuel room : Nat) (done : List (Points × Json Points))
    {a b : List Char} {c : Char}, MembersText ms (a ++ c :: b) → Separator c →
    2 * a.length + 1 ≤ fuel →
    ∃ e d t, members fuel room done (skip a) = .error e ∧ skip a = d :: t ∧ d ≠ '\x7d' := by
  intro ms fuel room done a b c hs hc hfuel
  obtain ⟨fuel, rfl⟩ : ∃ n, fuel = n + 1 := ⟨fuel - 1, by omega⟩
  match ms with
  | [] =>
    have hgap : Gap (a ++ c :: b) := by simpa only [MembersText] using hs
    exact absurd (by simp) (hgap.not_separator hc)
  | (name, v) :: ms =>
    rw [MembersText] at hs
    obtain ⟨before, nameText, after, middle, text, last, tail, hbefore, hname, hafter, hmiddle,
      hv, hlast, hall,
      htail⟩ := hs
    obtain ⟨a₁, rfl, hmember⟩ := cut_gap hbefore hc hall
    rw [List.length_append] at hfuel
    rw [skip_gap hbefore]
    rcases cut_append hmember with ⟨b', rfl⟩ | ⟨a₂, rfl, hcolon⟩
    · -- the name is cut
      obtain ⟨body, hquote, hbody⟩ := hname
      obtain ⟨a₂, rfl, hcut⟩ := cut_mark hc (by decide) hquote
      rcases cut_append hcut with ⟨_, rfl⟩ | ⟨_, _, hlast⟩
      · rw [skip_cons (by decide)]
        exact ⟨.malformed, '"', a₂,
          by rw [members, memberName?, string_cut hbody hc]; rfl, rfl, by decide⟩
      · obtain ⟨_, rfl, hnil⟩ := cut_mark hc (by decide) hlast
        simp at hnil
    · obtain ⟨a₃, rfl, hmark⟩ := cut_gap hafter hc hcolon
      obtain ⟨a₄, rfl, hvalue⟩ := cut_mark hc (by decide) hmark
      obtain ⟨a₅, rfl, hpart⟩ := cut_gap hmiddle hc hvalue
      have hread := memberName_text hname hafter (middle ++ a₅)
      obtain ⟨body, rfl, _⟩ := hname
      simp only [List.length_append, List.length_cons] at hfuel
      have hfails : ∃ e, members (fuel + 1) room done
          ('"' :: (body ++ ['"']) ++ (after ++ ':' :: (middle ++ a₅))) = .error e := by
        rcases cut_append hpart with ⟨b', rfl⟩ | ⟨a₆, rfl, hend⟩
        · obtain ⟨d, t, rfl, hd, _⟩ := cut_start hv hc
          obtain ⟨e, he⟩ := value_cut v fuel room hv hc (by omega)
          rw [members, hread, skip_gap hmiddle]
          exact ⟨e, by simp only [skip_cons hd, he]; rfl⟩
        · obtain ⟨a₇, rfl, hcomma⟩ := cut_gap hlast hc hend
          rcases htail with ⟨_, rfl⟩ | ⟨_, next, rfl, hnext⟩
          · simp at hcomma
          obtain ⟨a₈, rfl, rfl⟩ := cut_mark hc (by decide) hcomma
          simp only [List.length_append, List.length_cons] at hfuel
          have hvalue := value_writtenAs v fuel room (last ++ ',' :: a₈) hv
            (hlast.stops (Stops.cons (by simp) _)) (by omega)
          obtain ⟨e, _, _, he, _⟩ :=
            members_cut ms fuel room (setMember done name v) hnext hc (by omega)
          rw [skip_value hmiddle hv] at hread
          rw [members_more hread hvalue hlast, he]
          cases limit room v with
          | error e => exact ⟨e, rfl⟩
          | ok _ => exact ⟨e, rfl⟩
      obtain ⟨e, he⟩ := hfails
      rw [List.cons_append] at he ⊢
      rw [skip_cons (by decide)]
      exact ⟨e, '"', _, he, rfl, by decide⟩

end

end Characters

section Whole

variable {v : Json Points} {before text after : List Char}

/-- A written value with space around it is read as what it is, unless it goes beyond a limit. -/
theorem read_writtenAs (room : Nat) (hbefore : Gap before) (hv : v.WrittenAs text)
    (hafter : Gap after) :
    read (before ++ (text ++ after)) room = (limit room v).map fun _ => v := by
  have hstops : Stops after := by
    have hgap : Stops (after ++ []) := hafter.stops (by simp [Stops])
    rwa [List.append_nil] at hgap
  have hend : skip after = [] := by
    have hgap := skip_gap hafter []
    rwa [List.append_nil] at hgap
  rw [read, skip_value hbefore hv,
    value_writtenAs v _ _ _ hv hstops (by simp only [List.length_append]; omega)]
  cases limit room v with
  | error e => rfl
  | ok _ => simp [Except.map, Except.bind, hend]

/-- It is not read when it is cut off before a separator. -/
theorem read_cut (room : Nat) {a b : List Char} {c : Char} (hbefore : Gap before)
    (hv : v.WrittenAs text) (hafter : Gap after)
    (hs : a ++ c :: b = before ++ (text ++ after)) (hc : Separator c) :
    ∃ e, read a room = .error e := by
  obtain ⟨a, rfl, hcut⟩ := cut_gap hbefore hc hs
  rcases cut_append hcut with ⟨b', rfl⟩ | ⟨_, rfl, hlast⟩
  · obtain ⟨d, t, rfl, hd, _⟩ := cut_start hv hc
    obtain ⟨e, he⟩ := value_cut v (2 * (before ++ d :: t).length + 1) room hv hc
      (by simp only [List.length_append]; omega)
    rw [read, skip_gap hbefore, skip_cons hd, he]
    exact ⟨e, rfl⟩
  · exact absurd (by simp [← hlast]) (hafter.not_separator hc)

end Whole

end NotebookHub.Json
