import NotebookHub.Hub.Delivery

namespace NotebookHub

def Notice.message : Notice → Message
  | .opened a _ version text mode predecessor => .opened a (some version) text mode predecessor
  | .changed a _ edits version => .changed a edits (some version)
  | .closed a => .closed a

def Link.message (l : Link) : Message := .linked l.cell l.predecessor

@[simp] theorem Notice.document_message (n : Notice) : n.message.document = n.document := by
  cases n <;> rfl

namespace Hub

structure Speaks (h g : Hub) : Prop where
  settings : g.settings = h.settings
  route : g.route = h.route
  store : g.store = h.store
  documents : g.documents = h.documents
  passes : g.passes = h.passes

namespace Speaks

theorem refl (h : Hub) : Speaks h h := ⟨rfl, rfl, rfl, rfl, rfl⟩

theorem trans {h g k : Hub} (a : Speaks h g) (b : Speaks g k) : Speaks h k :=
  ⟨b.settings.trans a.settings, b.route.trans a.route, b.store.trans a.store,
    b.documents.trans a.documents, b.passes.trans a.passes⟩

end Speaks

/-- Writing down a round adds a call for each workspace that was told. -/
theorem record_eq (h : Hub) (told : List (String × Message × Receipt)) :
    ∃ journal, h.record told =
      { h with calls := h.calls ++ told.map fun t => .told t.1 t.2.1, journal } := by
  induction told generalizing h with
  | nil => exact ⟨h.journal, by simp [record]⟩
  | cons t told ih =>
    have hstep : ∃ journal, h.record [t] =
        { h with calls := h.calls ++ [.told t.1 t.2.1], journal } := by
      simp only [record, List.foldl_cons, List.foldl_nil, call, note]
      repeat' split
      all_goals exact ⟨_, rfl⟩
    obtain ⟨js, hjs⟩ := hstep
    obtain ⟨journal, hrest⟩ := ih (h.record [t])
    refine ⟨journal, ?_⟩
    have hcons : h.record (t :: told) = (h.record [t]).record told := rfl
    rw [hcons, hrest, hjs]
    simp

theorem tellOwners_eq (h : Hub) (m : Message) :
    ∃ journal, (h.tellOwners m).1 =
      { h with
        roster := (h.roster.deliver m).2
        calls := h.calls ++ (h.roster.deliver m).1.told.map fun t => .told t.1 t.2.1
        journal } :=
  record_eq { h with roster := (h.roster.deliver m).2 } _

theorem tellOwners_speaks (h : Hub) (m : Message) : Speaks h (h.tellOwners m).1 := by
  obtain ⟨journal, he⟩ := h.tellOwners_eq m
  rw [he]
  exact ⟨rfl, rfl, rfl, rfl, rfl⟩

/-- A notice is good unless it speaks of an earlier life of its document. -/
def isGood (h : Hub) : Notice → Bool
  | .closed _ => true
  | .opened a life .. | .changed a life .. => h.documents.isCurrent a.key life

/-- Whether a notice is good depends on the life of its own document. -/
theorem isGood_congr {h g : Hub} {n : Notice}
    (hl : (g.documents.get? n.document.key).map Document.life =
      (h.documents.get? n.document.key).map Document.life) : g.isGood n = h.isGood n := by
  have hcur (life : Nat) : g.documents.isCurrent n.document.key life =
      h.documents.isCurrent n.document.key life := by
    unfold Registry.isCurrent
    revert hl
    cases g.documents.get? n.document.key <;> cases h.documents.get? n.document.key <;> simp_all
  cases n with
  | opened a life version text mode predecessor => exact hcur life
  | changed a life edits version => exact hcur life
  | closed a => rfl

theorem deliver_eq (h : Hub) (n : Notice) :
    (h.deliver n).1 =
      if h.isGood n then (h.tellOwners n.message).1
        else h.note (.noticeDropped n.document.uri) := by
  cases n with
  | closed a => simp [deliver, isGood, Notice.message]
  | opened a life version text mode predecessor =>
    have hg : h.isGood (.opened a life version text mode predecessor) =
        h.documents.isCurrent a.key life := rfl
    rw [hg]
    by_cases hc : h.documents.isCurrent a.key life = true
    · simp only [deliver, hc, if_true, Notice.message]
    · simp only [deliver, if_neg hc, Notice.document]
  | changed a life edits version =>
    have hg : h.isGood (.changed a life edits version) = h.documents.isCurrent a.key life := rfl
    rw [hg]
    by_cases hc : h.documents.isCurrent a.key life = true
    · simp only [deliver, hc, if_true, Notice.message]
      rcases h.tellOwners (.changed a edits (some version)) with ⟨g, m⟩
      cases m <;> rfl
    · simp only [deliver, if_neg hc, Notice.document]

theorem deliver_speaks (h : Hub) (n : Notice) : Speaks h (h.deliver n).1 := by
  rw [deliver_eq]
  split
  · exact h.tellOwners_speaks _
  · exact ⟨rfl, rfl, rfl, rfl, rfl⟩

/-- Publishes the links of a pass for as long as it is the current one. -/
def publishLinks (notebook : String) (token : Token) (total : Nat) : Hub → List Link → Hub
  | h, [] => h.note (.passPublished notebook total)
  | h, l :: links =>
    if h.passes.isCurrent token then
      publishLinks notebook token total (h.tellOwners l.message).1 links
    else h.note (.passSuperseded notebook)

def carryOut (h : Hub) : Errand → Hub
  | .notice n => (h.deliver n).1
  | .publish p => publishLinks p.notebook p.token p.total h p.links

theorem perform_speaks (h : Hub) (e : Errand) : Speaks h (h.perform e).1 := by
  unfold perform
  split
  · exact h.deliver_speaks _
  · split
    · exact .refl h
    · split
      · exact h.tellOwners_speaks _
      · exact ⟨rfl, rfl, rfl, rfl, rfl⟩

/-- Nobody is told anything when passes end. -/
theorem proceed_eq (h : Hub) (es : List Errand) :
    ∃ journal, (h.proceed es).1 = { h with journal } := by
  fun_induction proceed h es with
  | case1 h => exact ⟨h.journal, rfl⟩
  | case2 h es notebook token total ih =>
    obtain ⟨journal, he⟩ := ih
    exact ⟨journal, by rw [he]; rfl⟩
  | case3 h => exact ⟨h.journal, rfl⟩

theorem proceed_suffix (h : Hub) (es : List Errand) : (h.proceed es).2 <:+ es := by
  fun_induction proceed h es with
  | case1 => exact List.suffix_refl _
  | case2 h es notebook token total ih => exact ih.trans (List.suffix_cons ..)
  | case3 => exact List.suffix_refl _

theorem proceed_speaks (h : Hub) (es : List Errand) : Speaks h (h.proceed es).1 := by
  obtain ⟨journal, he⟩ := h.proceed_eq es
  rw [he]
  exact ⟨rfl, rfl, rfl, rfl, rfl⟩

theorem resume_speaks (h : Hub) (es : List Errand) : Speaks h (h.resume es).1 := by
  unfold resume
  split
  · exact .refl h
  · exact (h.perform_speaks _).trans (proceed_speaks _ _)

theorem publishLinks_speaks (notebook : String) (token : Token) (total : Nat) (h : Hub)
    (links : List Link) : Speaks h (publishLinks notebook token total h links) := by
  induction links generalizing h with
  | nil => exact ⟨rfl, rfl, rfl, rfl, rfl⟩
  | cons l links ih =>
    unfold publishLinks
    split
    · exact (h.tellOwners_speaks _).trans (ih _)
    · exact ⟨rfl, rfl, rfl, rfl, rfl⟩

theorem carryOut_speaks (h : Hub) (e : Errand) : Speaks h (h.carryOut e) := by
  cases e with
  | notice n => exact h.deliver_speaks n
  | publish p => exact publishLinks_speaks ..

/-- Carrying an errand out is performing one lookup's worth and carrying out what is left. -/
theorem foldl_perform (h : Hub) (e : Errand) (hne : 0 < e.lookups) :
    (h.perform e).2.toList.foldl carryOut (h.perform e).1 = h.carryOut e := by
  cases e with
  | notice n => rfl
  | publish p =>
    obtain ⟨notebook, token, links, total⟩ := p
    cases links with
    | nil => simp [Errand.lookups] at hne
    | cons l links =>
      simp only [perform, carryOut, publishLinks]
      split <;> rfl

theorem lookups_perform (h : Hub) (e : Errand) (hne : 0 < e.lookups) :
    lookups (h.perform e).2.toList < e.lookups := by
  cases e with
  | notice n => simp [perform, lookups, Errand.lookups]
  | publish p =>
    obtain ⟨notebook, token, links, total⟩ := p
    cases links with
    | nil => simp [Errand.lookups] at hne
    | cons l links =>
      simp only [perform]
      split <;> simp [lookups, Errand.lookups]

theorem lookups_append (es fs : List Errand) : lookups (es ++ fs) = lookups es + lookups fs := by
  induction es with
  | nil => simp [lookups]
  | cons e es ih =>
    simp only [lookups, List.cons_append, List.foldr_cons] at ih ⊢
    omega

/-- Passes without a cell left end on their own, and the first errand after them has a lookup to
make. -/
theorem proceed_spec (h : Hub) (es : List Errand) :
    (h.proceed es).2.foldl carryOut (h.proceed es).1 = es.foldl carryOut h ∧
      lookups (h.proceed es).2 = lookups es ∧
      ∀ e rest, (h.proceed es).2 = e :: rest → 0 < e.lookups := by
  fun_induction proceed h es with
  | case1 => simp
  | case2 h es notebook token total ih =>
    refine ⟨ih.1, ?_, ih.2.2⟩
    rw [ih.2.1]
    simp [lookups, Errand.lookups]
  | case3 h es e hne =>
    refine ⟨rfl, rfl, ?_⟩
    intro e' rest he
    obtain ⟨rfl, _⟩ := List.cons.inj he
    cases e with
    | notice n => simp [Errand.lookups]
    | publish p =>
      obtain ⟨notebook, token, links, total⟩ := p
      cases links with
      | nil => exact absurd rfl (hne notebook token total)
      | cons l links => simp [Errand.lookups]

theorem finish_proceed (fuel : Nat) (h : Hub) (es : List Errand) (hf : lookups es ≤ fuel) :
    finish fuel (h.proceed es).1 (h.proceed es).2 = es.foldl carryOut h := by
  induction fuel generalizing h es with
  | zero =>
    obtain ⟨hfold, hlook, hpos⟩ := h.proceed_spec es
    rw [← hfold]
    cases hp : (h.proceed es).2 with
    | nil => rfl
    | cons e rest =>
      have h0 := hpos e rest hp
      rw [hp] at hlook
      simp only [lookups, List.foldr_cons] at hlook hf
      omega
  | succ fuel ih =>
    obtain ⟨hfold, hlook, hpos⟩ := h.proceed_spec es
    rw [← hfold]
    cases hp : (h.proceed es).2 with
    | nil => exact ih (h.proceed es).1 [] (Nat.zero_le _)
    | cons e rest =>
      have h0 := hpos e rest hp
      have hless := lookups_perform (h.proceed es).1 e h0
      have hle : lookups (((h.proceed es).1.perform e).2.toList ++ rest) ≤ fuel := by
        rw [hp] at hlook
        rw [lookups_append]
        simp only [lookups, List.foldr_cons] at hlook hf hless ⊢
        omega
      have hrec := ih ((h.proceed es).1.perform e).1 _ hle
      rw [List.foldl_append, foldl_perform _ e h0] at hrec
      exact hrec

theorem deliverAll_eq_foldl (h : Hub) (es : List Errand) :
    h.deliverAll es = es.foldl carryOut h := by
  unfold deliverAll
  exact finish_proceed _ h es (Nat.le_of_eq (h.proceed_spec es).2.1.symm)

theorem foldl_carryOut_speaks (h : Hub) (es : List Errand) : Speaks h (es.foldl carryOut h) := by
  induction es generalizing h with
  | nil => exact .refl h
  | cons e es ih => exact (h.carryOut_speaks e).trans (ih _)

end Hub
end NotebookHub
