import NotebookHub.Proofs.Mirror

namespace NotebookHub

variable {α β : Type}

def Roster.speak (heard : Roster × List Call) (m : Message) : Roster × List Call :=
  ((heard.1.deliver m).2, heard.2 ++ (heard.1.deliver m).1.told.map fun t => .told t.1 t.2.1)

namespace Hub

def unnoted (h : Hub) : Hub := { h with journal := [] }

def among (h : Hub) (heard : Roster × List Call) (journal : List Note) : Hub :=
  { h with roster := heard.1, calls := heard.2, journal }

/-- Hubs apart from their journals are the same when the journal makes the difference. -/
theorem unnoted_eq_iff {h g : Hub} : h.unnoted = g.unnoted ↔ ∃ journal, g = { h with journal } := by
  constructor
  · intro he
    refine ⟨g.journal, ?_⟩
    cases h
    cases g
    simp only [unnoted, Hub.mk.injEq] at he ⊢
    obtain ⟨rfl, rfl, rfl, rfl, rfl, rfl, _, rfl⟩ := he
    trivial
  · rintro ⟨journal, rfl⟩
    rfl

end Hub

namespace Act

/-- Whoever the workspaces are and whatever is in the journal, `a` does the same to the books and
leaves the workspaces alone. -/
def Aloof (a : Act α) : Prop :=
  ∀ h heard journal, ∃ journal', a.on (h.among heard journal) =
    ((a.on h).1.among heard journal', (a.on h).2)

namespace Aloof

theorem pure (r : α) : Aloof (pure r : Act α) := fun _ _ journal => ⟨journal, rfl⟩

theorem lift (e : Except Uri.Error α) : Aloof (lift e) :=
  fun _ _ journal => by cases e <;> exact ⟨journal, rfl⟩

theorem jot (n : Note) : Aloof (jot n) := fun _ _ journal => ⟨journal ++ [n], rfl⟩

theorem modify {f : Hub → Hub}
    (hf : ∀ h heard journal, f (h.among heard journal) = (f h).among heard journal) :
    Aloof (modify f : Act Unit) := fun h heard journal => ⟨journal, by simp [hf]⟩

theorem bind {a : Act α} {f : α → Act β} (ha : Aloof a) (hf : ∀ x, Aloof (f x)) :
    Aloof (a >>= f) := by
  intro h heard journal
  obtain ⟨j, hj⟩ := ha h heard journal
  simp only [on_bind, hj]
  rcases a.on h with ⟨g, e | x⟩
  · exact ⟨j, rfl⟩
  · exact hf x g heard j

theorem get_bind {f : Hub → Act β} (hf : ∀ h heard journal, f (h.among heard journal) = f h)
    (hall : ∀ h, Aloof (f h)) : Aloof (get >>= f) := by
  intro h heard journal
  simp only [on_bind, on_get, hf]
  exact hall h h heard journal

theorem mapM {f : α → Act β} {l : List α} (hf : ∀ x, Aloof (f x)) : Aloof (l.mapM f) := by
  induction l with
  | nil => exact pure []
  | cons x l ih =>
    rw [List.mapM_cons]
    exact (hf x).bind fun _ => ih.bind fun _ => pure _

/-- Nobody is told anything. -/
theorem hush {a : Act α} (ha : Aloof a) (h : Hub) :
    (a.on h).1.roster = h.roster ∧ (a.on h).1.calls = h.calls := by
  obtain ⟨journal, he⟩ := ha h (h.roster, h.calls) h.journal
  have hsame := congrArg Prod.fst he
  change (a.on h).1 = _ at hsame
  rw [hsame]
  exact ⟨rfl, rfl⟩

end Aloof
end Act

namespace Hub

open Act

theorem reindex_aloof (key : Key) : Aloof (reindex key) :=
  .get_bind (fun _ _ _ => rfl) fun _ => (Aloof.modify fun _ _ _ => rfl).bind fun _ => .lift _

theorem registerOpen_aloof (item : TextItem) (mode : Mode) (predecessor : Option String) :
    Aloof (registerOpen item mode predecessor) := by
  have henter (language : Language) (mode : Mode) :
      Aloof (enterDocument { item with language } mode predecessor) := by
    refine (Aloof.lift _).bind fun a => .get_bind (fun _ _ _ => rfl) fun h => ?_
    dsimp only
    split
    · exact (Aloof.jot _).bind fun _ => (Aloof.modify fun _ _ _ => rfl).bind fun _ => .pure _
    · exact (Aloof.modify fun _ _ _ => rfl).bind fun _ => .pure _
  refine Aloof.bind ?_ fun mode => .get_bind (fun _ _ _ => rfl) fun h => ?_
  · cases mode with
    | cell => exact .pure _
    | file => exact (Aloof.lift _).bind fun _ => .pure _
  · exact (Aloof.jot _).bind fun _ => (henter _ _).bind fun _ => .pure _

theorem registerClose_aloof (uri : String) : Aloof (registerClose uri) :=
  (Aloof.jot _).bind fun _ => (Aloof.lift _).bind fun _ => (Aloof.modify fun _ _ _ => rfl).bind
    fun _ => .pure _

theorem registerChange_aloof (change : ContentChange) (mode : Mode) :
    Aloof (registerChange change mode) := by
  have hupdate : Aloof (updateDocument change) := by
    refine (Aloof.lift _).bind fun key => .get_bind (fun _ _ _ => rfl) fun h => ?_
    dsimp only
    split
    · exact (Aloof.jot _).bind fun _ => .pure _
    · exact (Aloof.modify fun _ _ _ => rfl).bind fun _ => .pure _
  refine hupdate.bind fun r => ?_
  rcases r with _ | ⟨d, settled⟩
  · exact .pure _
  · exact (Aloof.jot _).bind fun _ => .pure _

theorem registerContent_aloof (changes : List ContentChange) : Aloof (registerContent changes) :=
  (Aloof.mapM fun c => registerChange_aloof c .cell).bind fun _ => .pure _

theorem linkCells_aloof (pairs : List (String × Option String)) : Aloof (linkCells pairs) := by
  induction pairs with
  | nil => exact .pure _
  | cons p pairs ih =>
    exact (Aloof.lift _).bind fun _ => (Aloof.modify fun _ _ _ => rfl).bind fun _ =>
      ih.bind fun _ => .pure _

theorem stage_aloof (uri : String) (token : Token) : Aloof (stage uri token) := by
  refine (Aloof.lift _).bind fun key => .get_bind (fun _ _ _ => rfl) fun h => ?_
  split
  · exact .pure _
  · split
    · exact .pure _
    split
    · exact (Aloof.jot _).bind fun _ => .pure _
    · exact (linkCells_aloof _).bind fun _ => .pure _

theorem applyStructure_aloof (key : Key) (notebook : Notebook) (change : StructureChange)
    (token : Option Token) : Aloof (applyStructure key notebook change token) := by
  refine (Aloof.modify fun _ _ _ => rfl).bind fun _ => (reindex_aloof key).bind fun _ => ?_
  refine (Aloof.jot _).bind fun _ => (Aloof.mapM fun _ => registerOpen_aloof _ _ _).bind fun _ => ?_
  refine (Aloof.mapM fun _ => registerClose_aloof _).bind fun _ => ?_
  cases token with
  | none => exact .pure _
  | some t => exact (stage_aloof _ t).bind fun _ => .pure _

theorem applyData_aloof (key : Key) (updates : List Cell) : Aloof (applyData key updates) := by
  refine .get_bind (fun _ _ _ => rfl) fun h => ?_
  split
  · exact .pure _
  · refine (Aloof.modify fun _ _ _ => rfl).bind fun _ => ?_
    split
    · exact .jot _
    · exact .pure _

/-- An errand is carried out by telling its messages, and changes nothing else but the journal. -/
theorem carryOut_among (h : Hub) (e : Errand) :
    ∃ journal,
      h.carryOut e = h.among ((e.messages h).foldl Roster.speak (h.roster, h.calls)) journal := by
  cases e with
  | notice n =>
    simp only [carryOut, deliver_eq, Errand.messages]
    split
    · exact h.tellOwners_eq n.message
    · exact ⟨_, rfl⟩
  | publish p =>
    obtain ⟨notebook, token, links, total⟩ := p
    simp only [carryOut, Errand.messages]
    induction links generalizing h with
    | nil => cases h.passes.isCurrent token <;> exact ⟨_, rfl⟩
    | cons l links ih =>
      unfold publishLinks
      split
      · rename_i hc
        obtain ⟨j, hj⟩ := h.tellOwners_eq l.message
        have hc' : (h.tellOwners l.message).1.passes.isCurrent token = true := by rw [hj, hc]
        obtain ⟨journal, he⟩ := ih (h.tellOwners l.message).1
        rw [if_pos hc', hj] at he
        exact ⟨journal, by rw [hj, he]; rfl⟩
      · exact ⟨_, rfl⟩

theorem foldl_carryOut_among (h : Hub) (es : List Errand) :
    ∃ journal, es.foldl carryOut h =
      h.among ((h.owed es).foldl Roster.speak (h.roster, h.calls)) journal := by
  induction es generalizing h with
  | nil => exact ⟨h.journal, rfl⟩
  | cons e es ih =>
    obtain ⟨j, hj⟩ := h.carryOut_among e
    obtain ⟨journal, he⟩ := ih (h.carryOut e)
    have howed : (h.carryOut e).owed es = h.owed es := by
      simp only [owed, messages_congr (h.carryOut_speaks e)]
    refine ⟨journal, ?_⟩
    rw [List.foldl_cons, he, howed, hj]
    simp [owed, among]

/-- What is owed depends on the lives of documents and on the passes. -/
theorem owed_congr {h g : Hub} (hp : g.passes = h.passes)
    (hl : ∀ k, (g.documents.get? k).map Document.life = (h.documents.get? k).map Document.life)
    (es : List Errand) : g.owed es = h.owed es := by
  have hsame (e : Errand) : e.messages g = e.messages h := by
    cases e with
    | notice n => simp only [Errand.messages, isGood_congr (h := h) (g := g) (hl _)]
    | publish p => simp only [Errand.messages, hp]
  simp only [owed, hsame]

theorem foldl_carryOut_unnoted {h g : Hub} (hs : h.unnoted = g.unnoted) (es : List Errand) :
    (es.foldl carryOut h).unnoted = (es.foldl carryOut g).unnoted := by
  obtain ⟨journal, rfl⟩ := unnoted_eq_iff.mp hs
  obtain ⟨j, hj⟩ := h.foldl_carryOut_among es
  obtain ⟨j', hj'⟩ := foldl_carryOut_among { h with journal } es
  have howed : owed { h with journal } es = h.owed es := owed_congr rfl (fun _ => rfl) es
  rw [hj, hj', howed]
  rfl

end Hub
end NotebookHub
