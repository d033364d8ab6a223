import NotebookHub.Proofs.Alterations
import NotebookHub.Proofs.DueLinks

namespace NotebookHub

def Notice.leaves (held : Bool) : Notice → Bool
  | .opened .. => true
  | .changed .. => held
  | .closed _ => false

theorem Notice.isSome_effect (n : Notice) (c : Option Content) :
    (n.message.effect c).isSome = n.leaves c.isSome := by
  cases n <;> simp [message, Message.effect, leaves]

theorem Notice.key_of_announces {n : Notice} {k : Key} {life : Nat} (hn : n.Announces k life) :
    n.document.key = k := by
  cases n with
  | opened a => exact hn.1
  | changed a => exact hn.elim
  | closed a => exact hn.elim

theorem Notice.key_of_closes {n : Notice} {k : Key} (hn : n.Closes k) : n.document.key = k := by
  cases n with
  | opened a => exact hn.elim
  | changed a => exact hn.elim
  | closed a => exact hn

/-- What accounts for a document between the registry, where it may be open in some life, and the
owners, who hold it or not: a closing that is due, an opening that is due, or that the document was
lost. -/
structure Balanced (life : Option Nat) (closing : Prop) (opening : Nat → Prop)
    (held lost : Bool) : Prop where
  kept : held = true → life ≠ none ∨ closing
  owed : ∀ l, life = some l → held = true ∨ opening l ∨ lost = true
  lost : lost = true → held = false

namespace Balanced

variable {life life' : Option Nat} {closing closing' : Prop} {opening opening' : Nat → Prop}
  {held lost : Bool}

/-- A document may be opened or closed in the registry when that is due for delivery. -/
theorem register (hb : Balanced life closing opening held lost) (hc : closing → closing')
    (ho : ∀ l, life' = some l → opening l → opening' l)
    (hopened : ∀ l, life' = some l → life = some l ∨ opening' l)
    (hclosed : life' = none → life = none ∨ closing') :
    Balanced life' closing' opening' held lost where
  kept hh := by
    by_cases hnone : life' = none
    · rcases hclosed hnone with hold | hdue
      · exact .inr (hc ((hb.kept hh).resolve_left fun hne => hne hold))
      · exact .inr hdue
    · exact .inl hnone
  owed l hl := by
    rcases hopened l hl with hold | hdue
    · exact (hb.owed l hold).imp id fun h => h.imp (ho l hl) id
    · exact .inr (.inl hdue)
  lost := hb.lost

/-- More may come to be due. -/
theorem mono (hb : Balanced life closing opening held lost) (hc : closing → closing')
    (ho : ∀ l, life = some l → opening l → opening' l) :
    Balanced life closing' opening' held lost :=
  hb.register hc ho (fun _ hl => .inl hl) fun hl => .inl hl

/-- Owners who were told of the present life hold the document. -/
theorem opened (hlife : life ≠ none) : Balanced life closing opening true false :=
  ⟨fun _ => .inl hlife, fun _ _ => .inl rfl, nofun⟩

/-- Owners who were told of a closing do not; if the document is open it is lost. -/
theorem closed (hlost : ∀ l, life = some l → lost = true) :
    Balanced life closing opening false lost :=
  ⟨nofun, fun l hl => .inr (.inr (hlost l hl)), fun _ => rfl⟩

/-- When nothing is due, the owners hold what is open and was not lost. -/
theorem settled (hb : Balanced life closing opening held lost) (hc : ¬ closing)
    (ho : ∀ l, ¬ opening l) :
    held = true ↔ life ≠ none ∧ lost = false := by
  constructor
  · intro hh
    refine ⟨(hb.kept hh).resolve_right hc, ?_⟩
    by_contra hl
    have hnot := hb.lost (by simpa using hl)
    rw [hh] at hnot
    cases hnot
  · rintro ⟨hlife, hlost⟩
    obtain ⟨l, hl⟩ := Option.ne_none_iff_exists'.mp hlife
    rcases hb.owed l hl with hh | hdue | hl'
    · exact hh
    · exact absurd hdue (ho l)
    · rw [hlost] at hl'
      cases hl'

end Balanced

namespace Roster

/-- The owners hold these documents and nobody holds anything else. -/
def Holds (r : Roster) (held : Key → Bool) : Prop :=
  ∃ content, r.Shows content ∧ ∀ k, (content k).isSome = held k

variable {r : Roster} {held : Key → Bool}

theorem Blank.holds (hb : r.Blank) : r.Holds fun _ => false := ⟨_, hb.shows, fun _ => rfl⟩

/-- After a message the owners of its document hold it or not, by what the message does. -/
theorem Holds.deliver (hr : r.Holds held) {m : Message} (hm : m.document.Sound) {held' : Key → Bool}
    (heffect : ∀ k c, Option.isSome c = held k → (m.amend k c).isSome = held' k) :
    (r.deliver m).2.Holds held' := by
  obtain ⟨content, hs, hsome⟩ := hr
  exact ⟨_, hs.deliver hm, fun k => heffect k _ (hsome k)⟩

theorem mem_all_of_owners {w : Workspace} {p : Path} (hw : w ∈ r.owners p) : w ∈ r.all := by
  rw [owners_eq] at hw
  obtain ⟨post, hp, rfl⟩ := List.mem_map.mp hw
  rw [← workspaces_posts]
  exact List.mem_map_of_mem (List.mem_filter.mp hp).1

/-- A workspace holds what it owns of these documents. -/
theorem Holds.file (hr : r.Holds held) {w : Workspace} (hw : w ∈ r.all) {a : Address}
    (ha : a.Sound) :
    (w.get? a.key).isSome ↔ held a.key = true ∧ w ∈ r.owners a.path := by
  classical
  obtain ⟨content, hs, hsome⟩ := hr
  have hfile := congrArg Option.isSome (hs.file hw ha)
  rw [Option.isSome_map] at hfile
  rw [hfile, ← hsome]
  by_cases ho : w ∈ r.owners a.path <;> simp [ho]

end Roster

namespace Hub

/-- Whether a document is lost once a notice was delivered: its closing leaves it lost if it is open
by then, and an opening that is still good ends that. -/
def lostBy (h : Hub) (k : Key) (was : Bool) (n : Notice) : Bool :=
  if n.document.key = k then
    match n with
    | .closed _ => (h.documents.get? k).isSome
    | .opened .. => was && !h.isGood n
    | .changed .. => was
  else was

/-- What was not lost before is lost only by its closing. -/
theorem closed_of_lostBy {h : Hub} {k : Key} {n : Notice} (hlost : h.lostBy k false n = true) :
    ∃ a, n = .closed a ∧ a.key = k ∧ (h.documents.get? k).isSome := by
  unfold lostBy at hlost
  split at hlost
  · rename_i hk
    cases n with
    | opened => simp at hlost
    | changed => cases hlost
    | closed a => exact ⟨a, rfl, hk, hlost⟩
  · cases hlost

def heldBy (h : Hub) (k : Key) (was : Bool) (n : Notice) : Bool :=
  if h.isGood n && n.document.key = k then n.leaves was else was

section Delivery

variable {h : Hub} {k : Key} {closing closing' : Prop} {opening opening' : Nat → Prop}
  {held lost : Bool}

/-- An opening that is no longer good announces a life that is over. -/
theorem not_announces_of_not_good {n : Notice} (hgood : h.isGood n = false) {l : Nat}
    (hl : h.documents.lifeAt k = some l) : ¬ n.Announces k l := by
  intro hn
  cases n with
  | opened a life version text mode predecessor =>
    obtain ⟨rfl, rfl⟩ := hn
    obtain ⟨d, hd, hlife⟩ := Option.map_eq_some_iff.mp hl
    simp [isGood, Registry.isCurrent, hd, hlife] at hgood
  | changed | closed => exact hn

/-- A notice that moves nothing under `k`: of another document, of another life, or of a change. -/
theorem balanced_unmoved {n : Notice}
    (hb : Balanced (h.documents.lifeAt k) closing opening held lost)
    (hc : closing → closing' ∨ n.Closes k) (ho : ∀ l, opening l → opening' l ∨ n.Announces k l)
    (hcloses : ¬ n.Closes k) (hannounces : ∀ l, h.documents.lifeAt k = some l → ¬ n.Announces k l) :
    Balanced (h.documents.lifeAt k) closing' opening' held lost :=
  hb.mono (fun h => (hc h).resolve_right hcloses) fun l hl hopening =>
    (ho l hopening).resolve_right (hannounces l hl)

/-- A delivery keeps account: what it closes is closed or lost, and what it opens is held. -/
theorem balanced_deliver {n : Notice}
    (hb : Balanced (h.documents.lifeAt k) closing opening held lost)
    (hc : closing → closing' ∨ n.Closes k) (ho : ∀ l, opening l → opening' l ∨ n.Announces k l) :
    Balanced (h.documents.lifeAt k) closing' opening' (h.heldBy k held n) (h.lostBy k lost n) := by
  by_cases hk : n.document.key = k
  · simp only [heldBy, lostBy, hk, decide_true, Bool.and_true, if_true]
    cases n with
    | opened a life version text mode predecessor =>
      obtain rfl : a.key = k := hk
      cases hgood : h.isGood (.opened a life version text mode predecessor) with
      | true =>
        obtain ⟨d, hd, _⟩ := (Option.any_eq_true _ _).mp hgood
        have hlife : h.documents.lifeAt a.key ≠ none := by simp [Registry.lifeAt, hd]
        simpa [Notice.leaves] using Balanced.opened hlife
      | false =>
        have hstays := balanced_unmoved hb hc ho id fun _ => not_announces_of_not_good hgood
        simpa using hstays
    | changed a life edits version =>
      have hstays := balanced_unmoved hb hc ho id fun _ _ => id
      simpa [Notice.leaves] using hstays
    | closed a =>
      have hlost : ∀ l, h.documents.lifeAt k = some l → (h.documents.get? k).isSome = true := by
        intro l hl
        obtain ⟨d, hd, _⟩ := Option.map_eq_some_iff.mp hl
        rw [hd, Option.isSome_some]
      simpa [isGood, Notice.leaves] using Balanced.closed hlost
  · simp only [heldBy, lostBy, hk, decide_false, Bool.and_false, Bool.false_eq_true, if_false]
    exact balanced_unmoved hb hc ho (fun hn => hk (Notice.key_of_closes hn))
      fun l _ hn => hk (Notice.key_of_announces hn)

end Delivery

/-- What the owners hold when a lookup was answered. -/
theorem holds_perform {h : Hub} {held : Key → Bool} (hr : h.roster.Holds held) {e : Errand}
    (he : e.Addressed) :
    (h.perform e).1.roster.Holds fun k => e.notice?.elim (held k) (h.heldBy k (held k)) := by
  cases e with
  | notice n =>
    change (h.deliver n).1.roster.Holds fun k => h.heldBy k (held k) n
    rw [deliver_eq]
    by_cases hgood : h.isGood n = true
    · rw [if_pos hgood, tellOwners_roster]
      have hsound : n.message.document.Sound := n.document_message ▸ he
      refine hr.deliver hsound fun k c hc => ?_
      rw [Message.amend, Notice.document_message, heldBy, hgood, Bool.true_and, ← hc]
      by_cases hk : n.document.key = k
      · simp [hk, n.isSome_effect]
      · simp [hk]
    · simp only [heldBy, hgood, Bool.false_and, Bool.false_eq_true, if_false]
      exact hr
  | publish p =>
    change (h.perform (.publish p)).1.roster.Holds held
    obtain ⟨notebook, token, links, total⟩ := p
    cases links with
    | nil => exact hr
    | cons l links =>
      simp only [perform]
      split
      · rw [tellOwners_roster]
        have hsound : l.message.document.Sound := he l List.mem_cons_self
        refine hr.deliver hsound fun k c hc => ?_
        rw [← hc, Message.amend, Link.message, Message.effect]
        split
        · exact Option.isSome_map
        · rfl
      · exact hr

theorem addressed_proceed {h : Hub} {es : List Errand} (hes : ∀ e ∈ es, e.Addressed) :
    ∀ e ∈ (h.proceed es).2, e.Addressed := fun e he => hes e ((h.proceed_suffix es).subset he)

theorem addressed_resume {h : Hub} {es : List Errand} (hes : ∀ e ∈ es, e.Addressed) :
    ∀ e ∈ (h.resume es).2, e.Addressed := by
  cases es with
  | nil => exact hes
  | cons e es =>
    apply addressed_proceed
    intro f hf
    rcases List.mem_append.mp hf with hleft | hrest
    · have he := hes e (by simp)
      cases e with
      | notice n => simp at hleft
      | publish p =>
        obtain ⟨notebook, token, links, total⟩ := p
        cases links with
        | nil => simp at hleft
        | cons l links =>
          simp only at hleft
          split at hleft
          · obtain rfl : f = _ := by simpa using hleft
            exact fun l' hl' => he l' (List.mem_cons_of_mem l hl')
          · simp at hleft
    · exact hes f (List.mem_cons_of_mem e hrest)

end Hub

namespace Dispatcher

def Due (d : Dispatcher) (P : Notice → Prop) : Prop := ∃ id, ∃ n ∈ noticesOf (d.owedBy id), P n

def delivers? (d : Dispatcher) : Event → Option Notice
  | .resume id => (d.owedBy id).head?.bind Errand.notice?
  | _ => none

def lostIn (d : Dispatcher) (k : Key) (was : Bool) (e : Event) : Bool :=
  (d.delivers? e).elim was (d.hub.lostBy k was)

def lostAfter (d : Dispatcher) (k : Key) (was : Bool) : List Event → Bool
  | [] => was
  | e :: events => (d.step e).lostAfter k (d.lostIn k was e) events

section Due

variable {d : Dispatcher} {x : Handler} {P : Notice → Prop}

theorem Due.join (ho : d.Orderly) (hd : d.Due P) (n : Notification) (k : Key) :
    (d.join n k).Due P := by
  obtain ⟨id, hd⟩ := hd
  exact ⟨id, by rwa [owedBy_join ho]⟩

/-- What is due stays due in a step of a handler, unless that handler owed it. -/
theorem Due.work (hd : d.Due P) (ho : d.Orderly) (hx : d.Leads x) :
    (d.work x).Due P ∨ ∃ n ∈ noticesOf x.owed, P n := by
  obtain ⟨id, hd⟩ := hd
  by_cases hid : x.id = id
  · subst hid
    rw [owedBy_eq ho hx.mem] at hd
    exact .inr hd
  · exact .inl ⟨id, by rwa [owedBy_work_other ho hx hid]⟩

theorem not_due_of_isIdle (hidle : d.isIdle = true) : ¬ d.Due P := by
  rintro ⟨id, n, hn, _⟩
  have hnone : d.handlers = [] := List.isEmpty_iff.mp hidle
  have howed : d.owedBy id = [] := owedBy_eq_nil (by simp [hnone])
  simp [howed, noticesOf] at hn

end Due

/-- Every document is accounted for between the registry, the owners, and what is due. -/
structure Accounted (lost : Key → Bool) (d : Dispatcher) : Prop where
  sound : d.hub.documents.Sound
  addressed : ∀ id, ∀ e ∈ d.owedBy id, e.Addressed
  balanced : ∃ held, d.hub.roster.Holds held ∧
    ∀ k, Balanced (d.hub.documents.lifeAt k) (d.Due (·.Closes k))
      (fun l => d.Due (·.Announces k l)) (held k)
      (lost k)

section Account

variable {lost : Key → Bool} {d : Dispatcher} {x : Handler}

/-- To take a notification in changes no account. -/
theorem Accounted.join (ha : d.Accounted lost) (ho : d.Orderly) (n : Notification) (k : Key) :
    (d.join n k).Accounted lost where
  sound := ha.sound
  addressed id := by
    rw [owedBy_join ho]
    exact ha.addressed id
  balanced := by
    obtain ⟨held, hr, hb⟩ := ha.balanced
    refine ⟨held, hr, fun k' => ?_⟩
    exact (hb k').mono (fun h => h.join ho n k) fun l _ h => h.join ho n k

/-- What a handler is left with is all addressed, if it was before. -/
theorem addressed_work (ho : d.Orderly) (hx : d.Leads x) {es : List Errand}
    (hok : (d.hub.work x).2 = .ok es)
    (hes : ∀ e ∈ es, e.Addressed) (hd : ∀ id, ∀ e ∈ d.owedBy id, e.Addressed) :
    ∀ id, ∀ e ∈ (d.work x).owedBy id, e.Addressed := by
  intro id
  by_cases hid : x.id = id
  · subst hid
    rwa [owedBy_work ho hx hok]
  · rw [owedBy_work_other ho hx hid]
    exact hd id

/-- A handler that begins has what it registers due for delivery. -/
theorem Accounted.work_queued (ha : d.Accounted lost) (ho : d.Orderly) (hx : d.Leads x)
    (hp : x.progress = .queued) {es : List Errand} (hok : (d.hub.work x).2 = .ok es) :
    (d.work x).Accounted lost := by
  obtain ⟨g, fs, hrun, hwork, rfl⟩ := Hub.work_begins hp hok
  obtain ⟨passes, hhub⟩ := work_hub d x
  have howes := Hub.begin_owes hrun ha.sound
  have halters := Hub.altered_of_begin hrun
  have hdocuments : (d.work x).hub.documents = g.documents := by
    rw [hhub, hwork]
    exact (g.proceed_speaks fs).documents
  have hroster : (d.work x).hub.roster = d.hub.roster := by
    rw [hhub]
    exact (d.hub.work_registers (C := fun _ => True) hp fun _ _ => trivial).roster
  have hold (P : Notice → Prop) (h : d.Due P) : (d.work x).Due P :=
    (h.work ho hx).resolve_right (by simp [Handler.owed, hp, noticesOf])
  have hnew (P : Notice → Prop) (h : ∃ n ∈ noticesOf fs, P n) : (d.work x).Due P :=
    ⟨x.id, by rwa [owedBy_work ho hx hok, g.noticesOf_proceed]⟩
  refine ⟨hdocuments ▸ howes.sound, ?_, ?_⟩
  · exact addressed_work ho hx hok (Hub.addressed_proceed howes.addressed) ha.addressed
  · obtain ⟨held, hr, hb⟩ := ha.balanced
    refine ⟨held, hroster ▸ hr, fun k => ?_⟩
    rw [hdocuments]
    refine (hb k).register (hold _) (fun l _ => hold _) (fun l hl => ?_) fun hl => ?_
    · exact (halters.announced ha.sound hl).imp id (hnew _)
    · exact (halters.closed hl).imp id (hnew _)

/-- A handler that delivers keeps account of the document that it speaks of. -/
theorem Accounted.work_delivering (ha : d.Accounted lost) (ho : d.Orderly) (hx : d.Leads x)
    {e : Errand} {es : List Errand} (hp : x.progress = .delivering (e :: es)) :
    (d.work x).Accounted fun k => e.notice?.elim (lost k) (d.hub.lostBy k (lost k)) := by
  obtain ⟨passes, hhub⟩ := work_hub d x
  have howed : x.owed = e :: es := by rw [Handler.owed, hp]
  have hok : (d.hub.work x).2 = .ok (d.hub.resume (e :: es)).2 := by simp only [Hub.work, hp]
  have hdocuments : (d.work x).hub.documents = d.hub.documents := by
    rw [hhub]
    exact (d.hub.work_speaks hp).documents
  have hroster : (d.work x).hub.roster = (d.hub.perform e).1.roster := by
    obtain ⟨journal, he⟩ := (d.hub.perform e).1.proceed_eq ((d.hub.perform e).2.toList ++ es)
    have hresume : (d.hub.work x).1 = { (d.hub.perform e).1 with journal } := by
      simp only [Hub.work, hp]
      exact he
    rw [hhub, hresume]
  have haddressed : ∀ f ∈ e :: es, f.Addressed := by
    have hall := ha.addressed x.id
    rwa [owedBy_eq ho hx.mem, howed] at hall
  have hdue (P : Notice → Prop) (h : d.Due P) : (d.work x).Due P ∨
      ∃ n, e.notice? = some n ∧ P n := by
    refine (h.work ho hx).elim .inl ?_
    rintro ⟨n, hn, hP⟩
    rw [howed] at hn
    obtain ⟨f, hf, hnotice⟩ := List.mem_filterMap.mp hn
    rcases List.mem_cons.mp hf with rfl | hf
    · exact .inr ⟨n, hnotice, hP⟩
    · refine .inl ⟨x.id, n, ?_, hP⟩
      rw [owedBy_work ho hx hok, d.hub.noticesOf_resume]
      exact List.mem_filterMap.mpr ⟨f, hf, hnotice⟩
  refine ⟨hdocuments ▸ ha.sound, ?_, ?_⟩
  · exact addressed_work ho hx hok (Hub.addressed_resume haddressed) ha.addressed
  · obtain ⟨held, hr, hb⟩ := ha.balanced
    refine ⟨_, hroster ▸ Hub.holds_perform hr (haddressed e List.mem_cons_self), fun k => ?_⟩
    rw [hdocuments]
    cases hnotice : e.notice? with
    | none =>
      have hstays (P : Notice → Prop) (h : d.Due P) : (d.work x).Due P :=
        (hdue P h).resolve_right (by simp [hnotice])
      exact (hb k).mono (hstays _) fun l _ => hstays _
    | some n =>
      have hstays (P : Notice → Prop) (h : d.Due P) : (d.work x).Due P ∨ P n :=
        (hdue P h).imp id (by simp [hnotice])
      exact Hub.balanced_deliver (hb k) (hstays _) fun l => hstays _

theorem Accounted.work (ha : d.Accounted lost) (ho : d.Orderly) (hx : d.Leads x) {es : List Errand}
    (hok : (d.hub.work x).2 = .ok es) :
    (d.work x).Accounted fun k => d.lostIn k (lost k) (.resume x.id) := by
  have howed : d.delivers? (.resume x.id) = x.owed.head?.bind Errand.notice? := by
    rw [delivers?, owedBy_eq ho hx.mem]
  simp only [lostIn, howed]
  cases hp : x.progress with
  | queued => simpa [Handler.owed, hp] using ha.work_queued ho hx hp hok
  | delivering fs =>
    obtain ⟨e, fs, rfl, _⟩ := ho.atLookup x hx.mem fs hp
    simpa [Handler.owed, hp] using ha.work_delivering ho hx hp

theorem Accounted.step (ha : d.Accounted lost) (ho : d.Orderly) {e : Event} (he : e ≠ .shutdown)
    (hu : (d.step e).Unfailing) : (d.step e).Accounted fun k => d.lostIn k (lost k) e := by
  have hstep := step_happens ho e
  generalize d.step e = d' at hstep hu ⊢
  cases hstep with
  | save uri => exact { ha with }
  | refuse hn hk =>
    rename_i n err
    have hfault := hu (d.arrived, some (.uri err)) (by simp [refuse])
    cases hfault
  | wait hn hk => exact ha.join ho _ _
  | begin hn hk hx =>
    obtain ⟨es, hok⟩ := hu.work
    exact (ha.join ho _ _).work_queued (ho.join _ _) hx rfl hok
  | idle hid =>
    rename_i id
    have hnone : d.delivers? (.resume id) = none := by
      rw [delivers?, owedBy_eq_nil fun y hy hyid => (hid y hy hyid).1]
      rfl
    simp only [lostIn, hnone]
    exact ha
  | resume hx =>
    obtain ⟨es, hok⟩ := hu.work
    exact ha.work ho hx hok
  | shutdown => exact absurd rfl he

theorem Accounted.run (ha : d.Accounted lost) (ho : d.Orderly) {events : List Event}
    (he : Event.shutdown ∉ events) (hu : (d.run events).Unfailing) :
    (d.run events).Accounted fun k => d.lostAfter k (lost k) events := by
  induction events generalizing d lost with
  | nil => exact ha
  | cons e events ih =>
    have hfirst : e ≠ .shutdown := fun h => he (h ▸ List.mem_cons_self)
    have hrest : Event.shutdown ∉ events := fun h => he (List.mem_cons_of_mem e h)
    exact ih (ha.step ho hfirst (hu.first ho)) (ho.step e) hrest hu

/-- What is lost was closed late: its closing was delivered while it was open. -/
theorem closed_late_of_lostAfter {events : List Event} {k : Key}
    (hlost : d.lostAfter k false events = true) :
    ∃ before e after a, events = before ++ e :: after ∧ (d.run before).delivers? e =
      some (.closed a) ∧
      a.key = k ∧ ((d.run before).hub.documents.get? k).isSome := by
  induction events generalizing d with
  | nil => cases hlost
  | cons e events ih =>
    rw [lostAfter] at hlost
    cases hfirst : d.lostIn k false e with
    | false =>
      rw [hfirst] at hlost
      obtain ⟨before, e', after, a, he, hlate⟩ := ih hlost
      exact ⟨e :: before, e', after, a, by rw [he, List.cons_append], hlate⟩
    | true =>
      rw [lostIn] at hfirst
      cases hdelivers : d.delivers? e with
      | none => simp [hdelivers] at hfirst
      | some n =>
        rw [hdelivers] at hfirst
        obtain ⟨a, rfl, hkey, hopen⟩ := Hub.closed_of_lostBy hfirst
        exact ⟨[], e, events, a, rfl, hdelivers, hkey, hopen⟩

theorem accounted_fresh (settings : Settings) (route : Route) {roster : Roster}
    (hb : roster.Blank) :
    (fresh settings route roster).Accounted fun _ => false where
  sound k d hd := by simp [fresh, start, Registry.get?] at hd
  addressed id e he := by simp [owedBy, handler?, fresh, start] at he
  balanced := by
    refine ⟨_, hb.holds, fun k => ⟨(by cases ·), fun l hl => ?_, (by cases ·)⟩⟩
    simp [Registry.lifeAt, Registry.get?, fresh, start] at hl

end Account

/-- Once no handler is under way, a workspace holds exactly the open documents that it owns and that
were not lost. -/
theorem held_unless_lost {settings : Settings} {route : Route} {roster : Roster}
    (hblank : roster.Blank) {events : List Event} (hevents : Event.shutdown ∉ events)
    (hidle : ((fresh settings route roster).run events).isIdle = true)
    (hgood : ((fresh settings route roster).run events).Unfailing) {w : Workspace}
    (hw : w ∈ ((fresh settings route roster).run events).hub.roster.all) {uri : String} {key : Key}
    {path : Path} (hkey : Uri.key uri = .ok key) (hpath : Uri.path uri = .ok path) :
    (w.get? key).isSome ↔
      (((fresh settings route roster).run events).hub.documents.get? key).isSome ∧
        w ∈ ((fresh settings route roster).run events).hub.roster.owners path ∧
        (fresh settings route roster).lostAfter key false events = false := by
  have ha :=
    (accounted_fresh settings route hblank).run (orderly_fresh settings route roster) hevents hgood
  obtain ⟨a, hof, rfl⟩ := Address.of_key hkey
  obtain rfl : a.path = path := by
    have hp := (Address.of_eq_ok hof).2.2
    rw [hpath] at hp
    exact (Except.ok.inj hp).symm
  obtain ⟨held, hr, hb⟩ := ha.balanced
  have hsettled := (hb a.key).settled (not_due_of_isIdle hidle) fun l => not_due_of_isIdle hidle
  have hlife : ((fresh settings route roster).run events).hub.documents.lifeAt a.key ≠ none ↔
      (((fresh settings route roster).run events).hub.documents.get? a.key).isSome := by
    rw [Registry.lifeAt, ← Option.isSome_iff_ne_none, Option.isSome_map]
  rw [hr.file hw (Address.sound_of hof), hsettled, hlife, and_right_comm, and_assoc]

/-- A notebook is closed, and before its second cell's closing is delivered, that cell is opened
again as a document of its own. -/
def lateClosing : List Event :=
  [.arrive (.openDocument ⟨"c:x", .unnamed, 1, ""⟩), .resume 0,
    .arrive (.openNotebook
      ⟨"nb:1", "t", 1, none, [⟨.code, "c:a", none, none⟩, ⟨.code, "c:b", none, none⟩]⟩
      [⟨"c:a", .unnamed, 1, ""⟩, ⟨"c:b", .unnamed, 1, ""⟩]), .resume 1, .resume 1,
    .arrive (.closeNotebook "nb:1" ["c:a", "c:b"]),
    .arrive (.openDocument ⟨"c:b", .unnamed, 2, ""⟩), .resume 3, .resume 2, .resume 2]

theorem held_unless_lost_lateClosing :
    let d := (fresh {} .registry (.start true)).run lateClosing
    (d.hub.documents.get? ⟨"c:b"⟩).isSome ∧
      (∀ w ∈ d.hub.roster.owners ⟨.relative, ["c:b"]⟩, ¬ (w.get? ⟨"c:b"⟩).isSome) ∧
      ∀ w ∈ d.hub.roster.owners ⟨.relative, ["c:x"]⟩, (w.get? ⟨"c:x"⟩).isSome := by
  have hblank : (Roster.start true).Blank := Roster.blank_ofFolders true []
  have hevents : Event.shutdown ∉ lateClosing := by simp [lateClosing]
  have hidle : ((fresh {} .registry (.start true)).run lateClosing).isIdle = true := by
    decide +kernel
  have hgood : ((fresh {} .registry (.start true)).run lateClosing).Unfailing := by
    unfold Unfailing
    decide +kernel
  refine ⟨by decide +kernel, fun w hw hheld => ?_, fun w hw => ?_⟩
  · have hkey : Uri.key "c:b" = .ok ⟨"c:b"⟩ := by decide +kernel
    have hpath : Uri.path "c:b" = .ok ⟨.relative, ["c:b"]⟩ := by decide +kernel
    have hlost : (fresh {} .registry (.start true)).lostAfter ⟨"c:b"⟩ false lateClosing = true := by
      decide +kernel
    have hmem := Roster.mem_all_of_owners hw
    have hnot := ((held_unless_lost hblank hevents hidle hgood hmem hkey hpath).mp hheld).2.2
    rw [hlost] at hnot
    cases hnot
  · have hkey : Uri.key "c:x" = .ok ⟨"c:x"⟩ := by decide +kernel
    have hpath : Uri.path "c:x" = .ok ⟨.relative, ["c:x"]⟩ := by decide +kernel
    have hopen : (((fresh {} .registry (.start true)).run lateClosing).hub.documents.get?
        ⟨"c:x"⟩).isSome := by decide +kernel
    have hkept :
        (fresh {} .registry (.start true)).lostAfter ⟨"c:x"⟩ false lateClosing = false := by
      decide +kernel
    have hmem := Roster.mem_all_of_owners hw
    exact (held_unless_lost hblank hevents hidle hgood hmem hkey hpath).mpr ⟨hopen, hw, hkept⟩

end Dispatcher
end NotebookHub
