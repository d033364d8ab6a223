import Mathlib.Data.List.Induction
import NotebookHub.Proofs.Scopes

namespace NotebookHub

inductive RegistryCall
  | enter (item : TextItem) (mode : Mode) (predecessor : Option String)
  | update (change : ContentChange)
  | link (uri : String) (predecessor : Option String)
  | close (uri : String)
  | clear

namespace RegistryCall

def act : RegistryCall → Act Unit
  | .enter item mode predecessor => do
    let _ ← Hub.enterDocument item mode predecessor
  | .update change => do
    let _ ← Hub.updateDocument change
  | .link uri predecessor => do
    let key ← Act.keyOf uri
    modify fun h => { h with documents := h.documents.link key predecessor }
  | .close uri => do
    let key ← Act.keyOf uri
    modify fun h => { h with documents := h.documents.close key }
  | .clear => modify fun h => { h with documents := h.documents.clear }

def runAll (calls : List RegistryCall) (h : Hub) : Hub :=
  calls.foldl (fun h c => (c.act.on h).1) h

def opens (k : Key) : RegistryCall → Bool
  | .enter item .. => Uri.key item.uri = .ok k
  | _ => false

def ends (k : Key) : RegistryCall → Bool
  | .close uri => Uri.key uri = .ok k
  | .clear => true
  | _ => false

/-- After it the key is open or closed, whatever it was before. -/
def settles (k : Key) (c : RegistryCall) : Bool := c.opens k || c.ends k

def link? (k : Key) : RegistryCall → Option (Option String)
  | .link uri predecessor => if Uri.key uri = .ok k then some predecessor else none
  | _ => none

def change? (k : Key) : RegistryCall → Option ContentChange
  | .update change => if Uri.key change.uri = .ok k then some change else none
  | _ => none

def affects (k : Key) (c : RegistryCall) : Bool :=
  c.settles k || (c.link? k).isSome || (c.change? k).isSome

def on (c : RegistryCall) (r : Registry) : Registry :=
  match c with
  | .enter item mode predecessor =>
    match Address.of item.uri with
    | .ok address =>
      (r.enter
        { address, language := item.language, version := item.version, text := item.text, mode,
          predecessor }).1
    | .error _ => r
  | .update change =>
    match Uri.key change.uri with
    | .ok k => (r.update k change.edits change.version).1
    | .error _ => r
  | .link uri predecessor =>
    match Uri.key uri with
    | .ok k => r.link k predecessor
    | .error _ => r
  | .close uri =>
    match Uri.key uri with
    | .ok k => r.close k
    | .error _ => r
  | .clear => r.clear

theorem documents_act (c : RegistryCall) (h : Hub) :
    (c.act.on h).1.documents = c.on h.documents := by
  cases c with
  | enter item mode predecessor =>
    simp only [act, Act.on_bind, on]
    cases ha : Address.of item.uri with
    | error e => rw [Hub.enterDocument_on_error ha]
    | ok a =>
      obtain ⟨js, he⟩ := Hub.enterDocument_on ha mode predecessor h
      rw [he]
      rfl
  | update change =>
    simp only [act, on, Hub.updateDocument, Act.keyOf, Act.on_bind, Act.on_get]
    cases hk : Uri.key change.uri with
    | error e => rfl
    | ok k =>
      simp only [Act.on_lift_ok]
      cases hd : h.documents.get? k with
      | none => simp [Registry.update, hd, Act.jot, Hub.note, Except.map]
      | some d => simp [Registry.get?_update, hd, Except.map]
  | link uri predecessor | close uri =>
    simp only [act, on, Act.keyOf, Act.on_bind]
    cases Uri.key uri <;> rfl
  | clear => rfl

theorem documents_runAll (calls : List RegistryCall) (h : Hub) :
    (runAll calls h).documents = calls.foldl (fun r c => c.on r) h.documents := by
  induction calls generalizing h with
  | nil => rfl
  | cons c cs ih =>
    simp only [runAll, List.foldl_cons] at ih ⊢
    rw [ih, documents_act]

section Steps

variable {k : Key} {c : RegistryCall} {r : Registry}

theorem get?_of_ends (hc : c.ends k = true) : (c.on r).get? k = none := by
  cases c with
  | close uri =>
    have hk : Uri.key uri = .ok k := of_decide_eq_true hc
    simp [on, hk, Registry.get?_close]
  | clear => rfl
  | enter | update | link => cases hc

/-- An opening replaces all but the language of a document that is open already. -/
theorem get?_enter {item : TextItem} (hk : Uri.key item.uri = .ok k) (mode : Mode)
    (predecessor : Option String) :
    ∃ d, ((enter item mode predecessor).on r).get? k = some d ∧ d.mode = mode ∧
      d.predecessor = predecessor ∧ d.text = item.text ∧ d.version = item.version ∧
      d.language = ((r.get? k).map Document.language).getD item.language := by
  obtain ⟨a, ha, rfl⟩ := Address.of_key hk
  simp only [on, ha, Registry.get?_enter, if_true, Option.some.injEq, exists_eq_left']
  cases hd : r.get? a.key <;> simp [Registry.enter, hd]

/-- What the call makes of the document that is open under the key, unless it opens or ends the
key. -/
def amend (k : Key) (c : RegistryCall) (d : Document) : Document :=
  { d with
    predecessor := (c.link? k).getD d.predecessor
    text := ((c.change? k).map fun change => (Edit.applyAll change.edits d.text).1).getD d.text
    version := ((c.change? k).map ContentChange.version).getD d.version }

theorem get?_of_not_settles (hc : c.settles k = false) :
    (c.on r).get? k = (r.get? k).map (c.amend k) := by
  have hsame (hlink : c.link? k = none) (hchange : c.change? k = none) :
      (r.get? k).map (c.amend k) = r.get? k := by
    cases r.get? k <;> simp [amend, hlink, hchange]
  cases c with
  | enter item mode predecessor =>
    rw [hsame rfl rfl]
    cases ha : Address.of item.uri with
    | error e => simp [on, ha]
    | ok a =>
      have hne : a.key ≠ k := by
        rintro rfl
        simp [settles, opens, (Address.of_eq_ok ha).2.1] at hc
      simp [on, ha, Registry.get?_enter, hne]
  | update change =>
    cases hk : Uri.key change.uri with
    | error e => rw [hsame rfl (by simp [change?, hk]), on, hk]
    | ok k' =>
      by_cases he : k' = k
      · subst he
        cases hd : r.get? k' <;> simp [on, hk, Registry.get?_update, hd, amend, link?, change?]
      · rw [hsame rfl (by simp [change?, hk, he])]
        simp [on, hk, Registry.get?_update, he]
  | link uri predecessor =>
    cases hk : Uri.key uri with
    | error e => rw [hsame (by simp [link?, hk]) rfl, on, hk]
    | ok k' =>
      by_cases he : k' = k
      · subst he
        cases hd : r.get? k' <;> simp [on, hk, Registry.get?_link, hd, amend, link?, change?]
      · rw [hsame (by simp [link?, hk, he]) rfl]
        simp [on, hk, Registry.get?_link, he]
  | close uri =>
    rw [hsame rfl rfl]
    cases hk : Uri.key uri with
    | error e => simp [on, hk]
    | ok k' =>
      have hne : k' ≠ k := by
        rintro rfl
        simp [settles, opens, ends, hk] at hc
      simp [on, hk, Registry.get?_close, hne]
  | clear => simp [settles, ends] at hc

theorem isSome_on :
    ((c.on r).get? k).isSome = if c.settles k then c.opens k else (r.get? k).isSome := by
  cases hs : c.settles k with
  | false => simp [get?_of_not_settles hs]
  | true =>
    cases ho : c.opens k with
    | true =>
      cases c with
      | enter item mode predecessor =>
        obtain ⟨d, hd, _⟩ := get?_enter (r := r) (of_decide_eq_true ho) mode predecessor
        simp [hd]
      | update | link | close | clear => cases ho
    | false =>
      have he : c.ends k = true := by simpa [settles, ho] using hs
      simp [get?_of_ends he]

/-- A document that is not closed keeps its language, also when it is opened anew. -/
theorem language_on {d : Document} (hd : r.get? k = some d) (hc : c.ends k = false) :
    ∃ d', (c.on r).get? k = some d' ∧ d'.language = d.language := by
  cases hs : c.settles k with
  | false => exact ⟨c.amend k d, by rw [get?_of_not_settles hs, hd, Option.map_some], rfl⟩
  | true =>
    have ho : c.opens k = true := by simpa [settles, hc] using hs
    cases c with
    | enter item mode predecessor =>
      obtain ⟨d', hd', _, _, _, _, hl⟩ :=
        get?_enter (r := r) (of_decide_eq_true ho) mode predecessor
      exact ⟨d', hd', by simpa [hd] using hl⟩
    | update | link | close | clear => cases ho

end Steps

section Runs

variable {k : Key} {r : Registry} {calls : List RegistryCall}

def runOn (calls : List RegistryCall) (r : Registry) : Registry := calls.foldl (fun r c => c.on r) r

theorem get?_runOn_of_not_settles (hc : ∀ c ∈ calls, c.settles k = false) :
    (runOn calls r).get? k = (r.get? k).map fun d => calls.foldl (fun d c => c.amend k d) d := by
  induction calls generalizing r with
  | nil => simp [runOn]
  | cons c cs ih =>
    have hstep := get?_of_not_settles (r := r) (hc c (by simp))
    have hrest := ih (r := c.on r) fun c' hc' => hc c' (List.mem_cons_of_mem c hc')
    simp only [runOn, List.foldl_cons] at hrest ⊢
    rw [hrest, hstep, Option.map_map]
    rfl

section Amended

variable (k : Key) (calls : List RegistryCall) (d : Document)

theorem mode_amended : (calls.foldl (fun d c => c.amend k d) d).mode = d.mode := by
  induction calls generalizing d with
  | nil => rfl
  | cons c cs ih => exact ih _

theorem predecessor_amended : (calls.foldl (fun d c => c.amend k d) d).predecessor =
    (calls.filterMap (link? k)).getLastD d.predecessor := by
  induction calls generalizing d with
  | nil => rfl
  | cons c cs ih =>
    rw [List.foldl_cons, ih]
    cases hc : c.link? k with
    | none => simp [amend, hc]
    | some p => rw [List.filterMap_cons_some hc, List.getLastD_cons, amend, hc, Option.getD_some]

theorem version_amended : (calls.foldl (fun d c => c.amend k d) d).version =
    ((calls.filterMap (change? k)).map ContentChange.version).getLastD d.version := by
  induction calls generalizing d with
  | nil => rfl
  | cons c cs ih =>
    rw [List.foldl_cons, ih]
    cases hc : c.change? k with
    | none => simp [amend, hc]
    | some change =>
      simp only [List.filterMap_cons_some hc, List.map_cons, List.getLastD_cons, amend, hc,
        Option.map_some, Option.getD_some]

theorem text_amended : (calls.foldl (fun d c => c.amend k d) d).text =
    (calls.filterMap (change? k)).foldl
    (fun t change => (Edit.applyAll change.edits t).1) d.text := by
  induction calls generalizing d with
  | nil => rfl
  | cons c cs ih =>
    rw [List.foldl_cons, ih]
    cases hc : c.change? k <;> simp [amend, hc]

end Amended

theorem language_runOn {d : Document} (hd : r.get? k = some d)
    (hc : ∀ c ∈ calls, c.ends k = false) :
    ∃ d', (runOn calls r).get? k = some d' ∧ d'.language = d.language := by
  induction calls generalizing r d with
  | nil => exact ⟨d, hd, rfl⟩
  | cons c cs ih =>
    obtain ⟨d₁, hd₁, hl₁⟩ := language_on hd (hc c (by simp))
    obtain ⟨d₂, hd₂, hl₂⟩ := ih hd₁ fun c' hc' => hc c' (List.mem_cons_of_mem c hc')
    exact ⟨d₂, hd₂, hl₂.trans hl₁⟩

/-- The last call that opens or ends the key is this opening, and `later` are the calls after it. -/
def LastOpens (k : Key) (calls : List RegistryCall) (item : TextItem) (mode : Mode)
    (predecessor : Option String) (later : List RegistryCall) : Prop :=
  Uri.key item.uri = .ok k ∧ (∀ c ∈ later, c.settles k = false) ∧
    ∃ before, calls = before ++ .enter item mode predecessor :: later

theorem get?_of_lastOpens {item : TextItem} {mode : Mode} {predecessor : Option String}
    {later : List RegistryCall} (hlast : LastOpens k calls item mode predecessor later) :
    ∃ d, (runOn calls r).get? k = some d ∧ d.mode = mode ∧
      d.predecessor = (later.filterMap (link? k)).getLastD predecessor ∧
      d.text = (later.filterMap (change? k)).foldl
        (fun t change => (Edit.applyAll change.edits t).1) item.text ∧
      d.version =
        ((later.filterMap (change? k)).map ContentChange.version).getLastD item.version := by
  obtain ⟨hk, hlater, before, rfl⟩ := hlast
  obtain ⟨d, hd, hmode, hpredecessor, htext, hversion, _⟩ :=
    get?_enter (r := runOn before r) hk mode predecessor
  have hrun :=
    get?_runOn_of_not_settles (r := (enter item mode predecessor).on (runOn before r)) hlater
  rw [hd, Option.map_some] at hrun
  refine ⟨later.foldl (fun d c => c.amend k d) d, ?_, (mode_amended k later d).trans hmode,
    hpredecessor ▸ predecessor_amended k later d, htext ▸ text_amended k later d,
    hversion ▸ version_amended k later d⟩
  simpa [runOn] using hrun

/-- Registries that hold the same under one key, and count the same lives of it. -/
def SameAt (k : Key) (r r' : Registry) : Prop :=
  r.get? k = r'.get? k ∧ r.lives.get? k = r'.lives.get? k

theorem sameAt_of_not_affects {c : RegistryCall} (hc : c.affects k = false) :
    SameAt k (c.on r) r := by
  simp only [affects, Bool.or_eq_false_iff, Option.isSome_eq_false_iff,
    Option.isNone_iff_eq_none] at hc
  obtain ⟨⟨hs, hlink⟩, hchange⟩ := hc
  constructor
  · rw [get?_of_not_settles hs]
    cases r.get? k <;> simp [amend, hlink, hchange]
  · cases c with
    | enter item mode predecessor =>
      cases ha : Address.of item.uri with
      | error e => simp [on, ha]
      | ok a =>
        simp only [on, ha]
        apply Registry.lives_enter
        rintro rfl
        simp [settles, opens, (Address.of_eq_ok ha).2.1] at hs
    | update change => cases hk : Uri.key change.uri <;> simp [on, hk]
    | link uri predecessor | close uri =>
      cases hk : Uri.key uri <;> simp [on, hk, Registry.link, Registry.close]
    | clear => rfl

theorem SameAt.enter {r' : Registry} (h : SameAt k r r') (o : Registry.Opening) :
    SameAt k (r.enter o).1 (r'.enter o).1 := by
  by_cases hk : o.address.key = k
  · subst hk
    unfold Registry.enter
    rw [h.1, h.2]
    split <;> simp [SameAt, Registry.get?, h.2]
  · constructor
    · rw [Registry.get?_enter, Registry.get?_enter, if_neg hk, if_neg hk, h.1]
    · rw [Registry.lives_enter hk, Registry.lives_enter hk, h.2]

theorem SameAt.on {r' : Registry} (h : SameAt k r r') (c : RegistryCall) :
    SameAt k (c.on r) (c.on r') := by
  cases c with
  | enter item mode predecessor =>
    cases ha : Address.of item.uri with
    | error e => simpa only [RegistryCall.on, ha] using h
    | ok a => simpa only [RegistryCall.on, ha] using h.enter _
  | update change =>
    cases hk : Uri.key change.uri with
    | error e => simpa only [RegistryCall.on, hk] using h
    | ok k' => simp [SameAt, RegistryCall.on, hk, Registry.get?_update, h.1, h.2]
  | link uri predecessor =>
    cases hk : Uri.key uri with
    | error e => simpa only [RegistryCall.on, hk] using h
    | ok k' =>
      simp only [RegistryCall.on, hk]
      exact ⟨by simp [Registry.get?_link, h.1], h.2⟩
  | close uri =>
    cases hk : Uri.key uri with
    | error e => simpa only [RegistryCall.on, hk] using h
    | ok k' =>
      simp only [RegistryCall.on, hk]
      exact ⟨by simp [Registry.get?_close, h.1], h.2⟩
  | clear => exact ⟨rfl, h.2⟩

/-- A call on another key has no effect on this one. -/
theorem runOn_filter_affects {r' : Registry} (h : SameAt k r r') :
    SameAt k (runOn (calls.filter (affects k)) r) (runOn calls r') := by
  induction calls generalizing r r' with
  | nil => exact h
  | cons c cs ih =>
    cases hc : c.affects k with
    | true =>
      rw [List.filter_cons_of_pos hc]
      exact ih (h.on c)
    | false =>
      rw [List.filter_cons_of_neg (by simp [hc])]
      have hsame := sameAt_of_not_affects (r := r') hc
      exact ih ⟨h.1.trans hsame.1.symm, h.2.trans hsame.2.symm⟩

theorem isSome_runOn_iff : ((runOn calls {}).get? k).isSome ↔
    ∃ item mode predecessor later, LastOpens k calls item mode predecessor later := by
  constructor
  · intro hsome
    induction calls using List.reverseRecOn with
    | nil => cases hsome
    | append_singleton cs c ih =>
      rw [runOn, List.foldl_append, List.foldl_cons, List.foldl_nil, isSome_on] at hsome
      split at hsome
      · cases c with
        | enter item mode predecessor =>
          exact ⟨item, mode, predecessor, [], of_decide_eq_true hsome, by simp, cs, rfl⟩
        | update | link | close | clear => cases hsome
      · rename_i hs
        obtain ⟨item, mode, predecessor, later, hk, hlater, before, rfl⟩ := ih hsome
        refine ⟨item, mode, predecessor, later ++ [c], hk, ?_, before, by simp⟩
        intro c' hc'
        rcases List.mem_append.mp hc' with hc' | hc'
        · exact hlater c' hc'
        · obtain rfl := List.mem_singleton.mp hc'
          simpa using hs
  · rintro ⟨item, mode, predecessor, later, hlast⟩
    obtain ⟨d, hd, _⟩ := get?_of_lastOpens (r := {}) hlast
    simp [hd]

end Runs

/-- Take any calls on a registry in which nothing was ever open. A key has a document just when the
last call to open or end the key was an opening. Mode, predecessor, text and version are then what
that opening gave, with every later change and link of the key; the language is that of the opening
before which the key was closed. The same holds without the calls on other keys. -/
theorem overwrites_all_but_language {h : Hub} (hempty : h.documents = {})
    (calls : List RegistryCall) (k : Key) :
    let found := fun calls : List RegistryCall => (runAll calls h).documents.get? k
    ((found calls).isSome ↔
      ∃ item mode predecessor later, LastOpens k calls item mode predecessor later) ∧
    (∀ item mode predecessor later, LastOpens k calls item mode predecessor later →
      ∃ d, found calls = some d ∧ d.mode = mode ∧
        d.predecessor = (later.filterMap (link? k)).getLastD predecessor ∧
        d.text =
          (later.filterMap (change? k)).foldl
            (fun t change => (Edit.applyAll change.edits t).1) item.text ∧
        d.version =
          ((later.filterMap (change? k)).map ContentChange.version).getLastD item.version) ∧
    (∀ before item mode predecessor later, calls = before ++ .enter item mode predecessor :: later →
      Uri.key item.uri = .ok k → found before = none → (∀ c ∈ later, c.ends k = false) →
      ∃ d, found calls = some d ∧ d.language = item.language) ∧
    found (calls.filter (affects k)) = found calls := by
  simp only [documents_runAll, hempty]
  refine ⟨isSome_runOn_iff, fun _ _ _ _ hlast => get?_of_lastOpens hlast, ?_, ?_⟩
  · rintro before item mode predecessor later rfl hk hnone hlater
    obtain ⟨d, hd, _, _, _, _, hlanguage⟩ := get?_enter (r := runOn before {}) hk mode predecessor
    obtain ⟨d', hd', hl⟩ := language_runOn hd hlater
    refine ⟨d', by simpa [runOn] using hd', hl.trans ?_⟩
    rw [hlanguage, runOn, hnone, Option.map_none, Option.getD_none]
  · exact (runOn_filter_affects ⟨rfl, rfl⟩).1

/-- A document is opened twice, the second time as another language, and edited; another one comes
and goes. -/
def reopenings : List RegistryCall :=
  [.enter ⟨"file:///a.py", .named "python", 1, "x"⟩ .file none, .link "file:///a.py" (some "c:b"),
    .enter ⟨"file:///b.py", .unnamed, 1, ""⟩ .cell none,
    .enter ⟨"file:///%61.py", .named "sql", 5, "one"⟩ .cell (some "c:c"),
    .update ⟨"file:///a.py", 7, [.span ⟨0, 0⟩ ⟨0, 1⟩ "O"]⟩, .close "file:///b.py"]

/-- The document has all that the second opening and the edit gave it, and the language of the
first. -/
theorem overwrites_all_but_language_reopenings :
    ∃ d, (runAll reopenings {}).documents.get? ⟨"file:///a.py"⟩ = some d ∧ d.mode = .cell ∧
      d.predecessor = some "c:c" ∧ d.text = "One" ∧ d.version = 7 ∧
        d.language = .named "python" := by
  obtain ⟨_, hlast, hfirst, _⟩ :=
    overwrites_all_but_language (h := {}) rfl reopenings ⟨"file:///a.py"⟩
  obtain ⟨d, hd, hmode, hpredecessor, htext, hversion⟩ := hlast
    ⟨"file:///%61.py", .named "sql", 5, "one"⟩ .cell
    (some "c:c") (reopenings.drop 4) ⟨by decide +kernel, by decide +kernel, reopenings.take 3, rfl⟩
  obtain ⟨d', hd', hlanguage⟩ := hfirst [] ⟨"file:///a.py", .named "python", 1, "x"⟩ .file none
    (reopenings.drop 1) rfl (by decide +kernel) rfl (by decide +kernel)
  obtain rfl : d = d' := Option.some.inj (hd.symm.trans hd')
  refine ⟨d, hd, hmode, hpredecessor.trans ?_, htext.trans ?_, hversion.trans ?_, hlanguage⟩
  all_goals decide +kernel

end RegistryCall
end NotebookHub
