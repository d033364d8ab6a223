import NotebookHub.Proofs.Alterations
import NotebookHub.Proofs.Mirror

namespace NotebookHub

namespace Message

def isEdit : Message → Bool
  | .changed .. => true
  | _ => false

/-- The same message, or edits of the same document in other words. -/
def Alike (m m' : Message) : Prop := m' = m ∨ (m.isEdit ∧ m'.isEdit) ∧ m'.document = m.document

theorem Alike.document {m m' : Message} (ha : m.Alike m') : m'.document = m.document := by
  rcases ha with rfl | ⟨_, hd⟩
  · rfl
  · exact hd

/-- What edits do not change looks the same after edits in any words. -/
theorem Alike.view_amend {β : Type} {view : Option Content → β}
    (hview : ∀ a edits version c, view ((changed a edits version).effect c) = view c)
    {m m' : Message} (ha : m.Alike m') (k : Key) (c : Option Content) :
    view (m'.amend k c) = view (m.amend k c) := by
  have hedit {m : Message} (hm : m.isEdit = true) (c : Option Content) :
      view (m.amend k c) = view c := by
    cases m with
    | changed a edits version =>
      unfold amend
      split
      · exact hview a edits version c
      · rfl
    | opened | closed | linked => cases hm
  rcases ha with rfl | ⟨⟨hm, hm'⟩, _⟩
  · rfl
  · rw [hedit hm, hedit hm']

theorem Alike.receive {m m' : Message} (ha : m.Alike m') (w : Workspace) :
    m.Alike (w.receive m').2.message := by
  cases he : m'.isEdit with
  | false =>
    have hsame : (w.receive m').2.message = m' := by
      apply w.message_receive
      intro a edits version heq
      rw [heq] at he
      cases he
    rwa [hsame]
  | true =>
    have hm : m.isEdit = true := by
      rcases ha with rfl | ⟨⟨hm, _⟩, _⟩
      · exact he
      · exact hm
    have hedit : (w.receive m').2.message.isEdit = true := by
      cases m' with
      | changed a edits version =>
        unfold Workspace.receive
        dsimp only
        split <;> rfl
      | opened | closed | linked => cases he
    exact .inr ⟨⟨hm, hedit⟩, (w.document_receive m').trans ha.document⟩

end Message

namespace Roster

variable {β : Type} {view : Option Content → β} {step : β → Message → β} {a : Address} {m : Message}

def seen (r : Roster) (view : Option Content → β) (k : Key) : List ((Path → Bool) × β) :=
  r.posts.map fun post => (post.owns, view (post.content k))

def hears (p : Path) (step : β → Message → β) (s : (Path → Bool) × β) (m : Message) :
    (Path → Bool) × β :=
  (s.1, if s.1 p = true then step s.2 m else s.2)

theorem foldl_hears (p : Path) (s : (Path → Bool) × β) (ms : List Message) :
    ms.foldl (hears p step) s = (s.1, if s.1 p = true then ms.foldl step s.2 else s.2) := by
  induction ms generalizing s with
  | nil => simp
  | cons m ms ih =>
    rw [List.foldl_cons, ih, hears]
    split <;> simp

/-- The round takes the message to each workspace in some words. -/
theorem seen_along (hm : m.document.Sound) (ha : a.Sound)
    (hstep : ∀ m', m.Alike m' → ∀ c, view (m'.amend a.key c) = step (view c) m)
    {round : Round} (hround : m.Alike round.message) (ps : List Post) :
    (Round.along m.document.path round ps).2.map
    (fun post => (post.owns, view (post.content a.key))) =
      ps.map fun post => hears a.path step (post.owns, view (post.content a.key)) m := by
  -- of another path's document nothing is seen to change
  have hother {post : Post} (hne : post.owns m.document.path ≠ post.owns a.path)
    (c : Option Content) :
      step (view c) m = view c := by
    have hk : m.document.key ≠ a.key := by
      intro he
      apply hne
      rw [hm.path_eq ha he]
    rw [← hstep m (.inl rfl), Message.amend, if_neg hk]
  induction ps generalizing round with
  | nil => rfl
  | cons post ps ih =>
    simp only [Round.along, List.map_cons, List.cons.injEq]
    by_cases ho : post.owns m.document.path = true
    · simp only [Round.visit, if_pos ho]
      refine ⟨?_, ih (hround.receive _)⟩
      have hcontent : (Post.mk (round.pass post.workspace).2 post.owns).content a.key =
          round.message.amend a.key (post.content a.key) := post.workspace.content_receive _ _
      rw [hcontent, hstep _ hround, hears]
      by_cases hp : post.owns a.path = true
      · rw [if_pos hp]
      · have hne : post.owns m.document.path ≠ post.owns a.path := by
          rw [ho]
          exact Ne.symm hp
        rw [if_neg hp, hother hne]
    · simp only [Round.visit, if_neg ho]
      refine ⟨?_, ih hround⟩
      rw [hears]
      by_cases hp : post.owns a.path = true
      · have hne : post.owns m.document.path ≠ post.owns a.path := by
          rw [hp]
          exact ho
        rw [if_pos hp, hother hne]
      · rw [if_neg hp]

theorem seen_deliver (r : Roster) (hm : m.document.Sound) (ha : a.Sound)
    (hstep : ∀ m', m.Alike m' → ∀ c, view (m'.amend a.key c) = step (view c) m) :
    (r.deliver m).2.seen view a.key = (r.seen view a.key).map (hears a.path step · m) := by
  have hround : m.Alike (Round.mk m []).message := .inl rfl
  rw [seen, posts_deliver, seen_along hm ha hstep hround, seen, List.map_map]
  rfl

/-- What is seen after many messages. -/
theorem seen_foldl (r : Roster) {ms : List Message} (hms : ∀ m ∈ ms, m.document.Sound)
    (ha : a.Sound)
    (hstep : ∀ m ∈ ms, ∀ m', m.Alike m' → ∀ c, view (m'.amend a.key c) = step (view c) m) :
    (ms.foldl (fun r m => (r.deliver m).2) r).seen view a.key =
      (r.seen view a.key).map
      fun s => (s.1, if s.1 a.path = true then ms.foldl step s.2 else s.2) := by
  simp only [← foldl_hears]
  induction ms generalizing r with
  | nil => simp
  | cons m ms ih =>
    have hfirst := r.seen_deliver (hms m (by simp)) ha (hstep m (by simp))
    have hrest := ih (r.deliver m).2 (fun m' hm' => hms m' (List.mem_cons_of_mem m hm'))
      fun m' hm' => hstep m' (List.mem_cons_of_mem m hm')
    rw [List.foldl_cons, hrest, hfirst, List.map_map]
    rfl

end Roster

/-- Whoever held what, after this message they hold the same of its document. -/
def Message.Settles (m : Message) : Prop := ∀ c, m.effect c = m.effect none

/-- Once a document was settled, what was held of it before does not matter. -/
theorem foldl_amend_settled {ms : List Message} {k : Key}
    (hm : ∃ m ∈ ms, m.document.key = k ∧ m.Settles)
    (c c' : Option Content) : ms.foldl (Message.amend k) c = ms.foldl (Message.amend k) c' := by
  induction ms generalizing c c' with
  | nil => simp at hm
  | cons m ms ih =>
    rw [List.foldl_cons, List.foldl_cons]
    by_cases hlater : ∃ m ∈ ms, m.document.key = k ∧ m.Settles
    · exact ih hlater _ _
    · obtain ⟨m', hmem, hk, hs⟩ := hm
      rcases List.mem_cons.mp hmem with rfl | hmem
      · rw [Message.amend, Message.amend, if_pos hk, if_pos hk, hs c, hs c']
      · exact absurd ⟨m', hmem, hk, hs⟩ hlater

def Notice.Moves (k : Key) : Notice → Prop
  | .opened a .. | .closed a => a.key = k
  | .changed .. => False

namespace Registry

/-- A notice says of a document that it was closed, or that it was opened in the life that it is
in. -/
def Reported (r : Registry) (k : Key) (n : Notice) : Prop :=
  n.Closes k ∨ ∃ life, n.Announces k life ∧ r.lifeAt k = some life

theorem Reported.congr {r r' : Registry} {k : Key} {n : Notice} (hn : r.Reported k n)
    (hlife : r'.lifeAt k = r.lifeAt k) : r'.Reported k n := by
  rwa [Reported, hlife]

/-- Of the notices of a document that was opened or closed one says what became of it. -/
theorem Alters.reported {r r' : Registry} {ns : List Notice} (ha : r.Alters r' ns) (hr : r.Sound)
    {k : Key} (hmoved : ∃ n ∈ ns, n.Moves k) : ∃ n ∈ ns, r'.Reported k n := by
  -- an earlier notice still says so unless the step is about the same document
  have hearlier {r' s : Registry} {ns : List Notice} (n : Notice) (hn : ∃ n ∈ ns, r'.Reported k n)
      (hlife : s.lifeAt k = r'.lifeAt k) : ∃ m ∈ ns ++ [n], s.Reported k m := by
    obtain ⟨m, hm, hr⟩ := hn
    exact ⟨m, List.mem_append_left _ hm, hr.congr hlife⟩
  have hbefore {ns : List Notice} {n : Notice} (hmoved : ∃ m ∈ ns ++ [n], m.Moves k)
    (hn : ¬ n.Moves k) :
      ∃ m ∈ ns, m.Moves k := by
    obtain ⟨m, hm, hk⟩ := hmoved
    rcases List.mem_append.mp hm with hm | hm
    · exact ⟨m, hm, hk⟩
    · obtain rfl := List.mem_singleton.mp hm
      exact absurd hk hn
  induction ha with
  | refl => simp at hmoved
  | @enter r' ns steps o ho ih =>
    have hkey := (Hub.enter_spec (steps.sound hr) ho).2.2.1
    by_cases hk : o.address.key = k
    · refine ⟨_, List.mem_append_right _ (List.mem_singleton.mpr rfl),
        .inr ⟨_, ⟨hkey.trans hk, rfl⟩, ?_⟩⟩
      rw [lifeAt, get?_enter, if_pos hk, Option.map_some]
    · refine hearlier _ (ih (hbefore hmoved fun he => hk (hkey.symm.trans he))) ?_
      rw [lifeAt, get?_enter, if_neg hk, lifeAt]
  | update steps hd ih => exact hearlier _ (ih (hbefore hmoved id)) (lifeAt_update ..)
  | link steps k' predecessor ih =>
    obtain ⟨m, hm, hr⟩ := ih hmoved
    exact ⟨m, hm, hr.congr (lifeAt_link ..)⟩
  | close steps a ih =>
    by_cases hk : a.key = k
    · exact ⟨.closed a, by simp, .inl hk⟩
    · refine hearlier _ (ih (hbefore hmoved hk)) ?_
      rw [lifeAt, get?_close, if_neg hk, lifeAt]

end Registry

namespace Hub

/-- Whoever held what of a document that was opened or closed holds what the registry has, once what
is owed is told. -/
theorem owed_settled {h g : Hub} {n : Notification} {token : Option Token} {es : List Errand}
    {k : Key} (hs : h.documents.Sound) (hrun : (begin n token).on h = (g, .ok es))
    (hmoved : ∃ x ∈ noticesOf es, x.Moves k) (c : Option Content) :
    (g.owed es).foldl (Message.amend k) c = g.documents.content k := by
  have htold {x : Notice} (hx : x ∈ noticesOf es) (hgood : g.isGood x = true) :
      x.message ∈ g.owed es := by
    obtain ⟨e, he, hnotice⟩ := List.mem_filterMap.mp hx
    cases e with
    | publish p => cases hnotice
    | notice y =>
      obtain rfl := Option.some.inj hnotice
      refine List.mem_flatMap.mpr ⟨_, he, ?_⟩
      simp [Errand.messages, hgood]
  have hsettles : ∃ m ∈ g.owed es, m.document.key = k ∧ m.Settles := by
    obtain ⟨x, hx, hreported⟩ := (altered_of_begin hrun).reported hs hmoved
    rcases hreported with hc | ⟨life, ha, hlife⟩
    · cases x with
      | closed a => exact ⟨_, htold hx rfl, hc, fun _ => rfl⟩
      | opened | changed => exact hc.elim
    · cases x with
      | opened a l version text mode predecessor =>
        obtain ⟨rfl, rfl⟩ := ha
        refine ⟨_, htold hx ?_, rfl, fun _ => rfl⟩
        obtain ⟨d, hd, hl⟩ := Option.map_eq_some_iff.mp hlife
        simp [isGood, Registry.isCurrent, hd, hl]
      | changed | closed => exact ha.elim
  rw [foldl_amend_settled hsettles c (h.documents.content k)]
  exact (begin_owes hrun hs).content k

variable {h g : Hub} {n : Notification} {token : Option Token} {es : List Errand}
  {β : Type} {a : Address}
  {view : Option Content → β} {step : β → Message → β}

/-- What is seen of a document once all that a notification leaves has been delivered. -/
theorem seen_of_begin (hs : h.documents.Sound) (hrun : (begin n token).on h = (g, .ok es))
    (ha : a.Sound)
    (hstep : ∀ m m' : Message, m.Alike m' → ∀ c, view (m'.amend a.key c) = step (view c) m) :
    (es.foldl carryOut g).roster.seen view a.key = (h.roster.seen view a.key).map fun s =>
      (s.1, if s.1 a.path = true then (g.owed es).foldl step s.2 else s.2) := by
  have hsound : ∀ m ∈ g.owed es, m.document.Sound := by
    intro m hm
    obtain ⟨e, he, hm⟩ := List.mem_flatMap.mp hm
    exact ((begin_owes hrun hs).addressed e he).of_mem hm
  have hroster : g.roster = h.roster :=
    (registers_of_begin (C := fun _ => True) hrun fun _ _ => trivial).roster
  rw [foldl_carryOut_roster, hroster]
  exact h.roster.seen_foldl hsound ha fun m _ m' => hstep m m'

/-- Nothing else is seen of a document of which nothing is told that would be seen. -/
theorem seen_of_quiet (hs : h.documents.Sound) (hrun : (begin n token).on h = (g, .ok es))
    (ha : a.Sound)
    (hstep : ∀ m m' : Message, m.Alike m' → ∀ c, view (m'.amend a.key c) = step (view c) m)
    (hquiet : ∀ m ∈ g.owed es, ∀ v, step v m = v) :
    (es.foldl carryOut g).roster.seen view a.key = h.roster.seen view a.key := by
  have hfold (ms : List Message) (hms : ∀ m ∈ ms, ∀ v, step v m = v) (v : β) :
      ms.foldl step v = v := by
    induction ms with
    | nil => rfl
    | cons m ms ih =>
      rw [List.foldl_cons, hms m (by simp)]
      exact ih fun m' hm' => hms m' (List.mem_cons_of_mem m hm')
  rw [seen_of_begin hs hrun ha hstep]
  simp only [hfold _ hquiet, ite_self]
  exact List.map_id _

/-- Where a document is owned that was opened or closed, the registry is seen. -/
theorem seen_of_moved (hs : h.documents.Sound) (hrun : (begin n token).on h = (g, .ok es))
    (ha : a.Sound)
    (hstep : ∀ m m' : Message, m.Alike m' → ∀ c, view (m'.amend a.key c) = step (view c) m)
    (hmoved : ∃ x ∈ noticesOf es, x.Moves a.key) :
    (es.foldl carryOut g).roster.seen view a.key = (h.roster.seen view a.key).map fun s =>
      (s.1, if s.1 a.path = true then view (g.documents.content a.key) else s.2) := by
  have hfold (ms : List Message) (c : Option Content) :
      ms.foldl step (view c) = view (ms.foldl (Message.amend a.key) c) := by
    induction ms generalizing c with
    | nil => rfl
    | cons m ms ih => rw [List.foldl_cons, List.foldl_cons, ← hstep m m (.inl rfl), ih]
  rw [seen_of_begin hs hrun ha hstep]
  simp only [Roster.seen, List.map_map, Function.comp_def, hfold, owed_settled hs hrun hmoved]

end Hub
end NotebookHub
