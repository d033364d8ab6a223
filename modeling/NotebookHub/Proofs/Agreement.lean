import NotebookHub.Proofs.Scopes
import NotebookHub.Proofs.Sights
import NotebookHub.Proofs.Staging

namespace NotebookHub

def Call.isAbout (k : Key) : Call → Bool
  | .told _ m => !m.isLink && m.document.key = k
  | _ => false

def Errand.notice? : Errand → Option Notice
  | .notice n => some n
  | .publish _ => none

def noticesOf (es : List Errand) : List Notice := es.filterMap Errand.notice?

theorem noticesOf_append (es fs : List Errand) :
    noticesOf (es ++ fs) = noticesOf es ++ noticesOf fs :=
  List.filterMap_append

@[simp] theorem noticesOf_notices (ns : List Notice) : noticesOf (ns.map .notice) = ns := by
  induction ns with
  | nil => rfl
  | cons n ns ih => simpa [noticesOf, Errand.notice?] using ih

@[simp] theorem noticesOf_passErrand (uri : String) (token : Token) (links : Option (List Link)) :
    noticesOf (Hub.passErrand uri token links) = [] := by
  cases links <;> rfl

@[simp] theorem noticesOf_errands (u : Hub.StructuralUpdate) : noticesOf u.errands = u.notices := by
  unfold Hub.StructuralUpdate.errands
  rw [noticesOf_append, noticesOf_notices]
  cases u.token with
  | none => exact List.append_nil _
  | some t => simp

namespace Hub

/-- Two hubs have the same notebook under `N` and the same documents `T`, here and at the
workspaces, and the same was said of them, all this apart from chains. -/
structure Agree (N : Key) (T : Key → Prop) (h g : Hub) : Prop where
  settings : g.settings = h.settings
  notebook : g.store.get? N = h.store.get? N
  documents : ∀ k, T k →
    (g.documents.get? k).map Document.unlinked = (h.documents.get? k).map Document.unlinked
  lives : ∀ k, T k → g.documents.lives.get? k = h.documents.lives.get? k
  sights : ∀ k, T k → g.roster.posts.map (Post.sight · k) = h.roster.posts.map (Post.sight · k)
  calls : ∀ k, T k → g.calls.filter (Call.isAbout k) = h.calls.filter (Call.isAbout k)

namespace Agree

variable {N : Key} {T : Key → Prop} {h g f : Hub}

theorem refl (h : Hub) : Agree N T h h :=
  ⟨rfl, rfl, fun _ _ => rfl, fun _ _ => rfl, fun _ _ => rfl, fun _ _ => rfl⟩

theorem symm (a : Agree N T h g) : Agree N T g h where
  settings := a.settings.symm
  notebook := a.notebook.symm
  documents k hk := (a.documents k hk).symm
  lives k hk := (a.lives k hk).symm
  sights k hk := (a.sights k hk).symm
  calls k hk := (a.calls k hk).symm

theorem trans (a : Agree N T h g) (b : Agree N T g f) : Agree N T h f where
  settings := b.settings.trans a.settings
  notebook := b.notebook.trans a.notebook
  documents k hk := (b.documents k hk).trans (a.documents k hk)
  lives k hk := (b.lives k hk).trans (a.lives k hk)
  sights k hk := (b.sights k hk).trans (a.sights k hk)
  calls k hk := (b.calls k hk).trans (a.calls k hk)

theorem note (a : Agree N T h g) (n m : Note) : Agree N T (h.note n) (g.note m) := { a with }

theorem withJournal (journal : List Note) : Agree N T h { h with journal } := { refl h with }

theorem withPasses (passes : Passes) : Agree N T h { h with passes } := { refl h with }

/-- A registration about other notebooks and documents. -/
theorem of_registers {S T' : Key → Prop} {C : String → Prop} (r : Registers S T' C h g) (hN : ¬ S N)
    (hT : ∀ k, T k → ¬ T' k) : Agree N T h g where
  settings := r.settings
  notebook := r.store N hN
  documents k hk := r.documents k (hT k hk)
  lives k hk := r.lives k (hT k hk)
  sights k hk := by rw [r.roster]
  calls k hk := by
    obtain ⟨cs, hcs, hother⟩ := r.calls
    have hnone : cs.filter (Call.isAbout k) = [] := by
      rw [List.filter_eq_nil_iff]
      intro c hc
      cases c with
      | told w m => exact absurd rfl (hother _ hc w m)
      | _ => simp [Call.isAbout]
    rw [hcs, List.filter_append, hnone, List.append_nil]

/-- Staging is about chains. -/
theorem of_stages {k : Key} {token : Option Token} {ps : List ChainPass}
    (hs : Stages k token h g ps) :
    Agree N T h g := by
  cases hs with
  | nothing hbooks =>
    obtain ⟨journal, rfl⟩ := hbooks
    exact withJournal journal
  | pass _ _ _ hbooks =>
    subst hbooks
    exact { refl h with
      documents := fun k _ => Registry.get?_linkAll_unlinked ..
      lives := fun k _ => by rw [Registry.lives_linkAll] }

theorem tellOwners (a : Agree N T h g) (m : Message) :
    Agree N T (h.tellOwners m).1 (g.tellOwners m).1 := by
  obtain ⟨js, hh⟩ := h.tellOwners_eq m
  obtain ⟨js', hg⟩ := g.tellOwners_eq m
  rw [hh, hg]
  have hother (k : Key) (hk : m.document.key ≠ k) (r : Roster) :
      ((r.deliver m).1.told.map fun t => Call.told t.1 t.2.1).filter (Call.isAbout k) = [] := by
    rw [List.filter_eq_nil_iff]
    intro c hc
    obtain ⟨t, ht, rfl⟩ := List.mem_map.mp hc
    simp [Call.isAbout, r.document_told m t ht, hk]
  refine ⟨a.settings, a.notebook, a.documents, a.lives, fun k hk => ?_, fun k hk => ?_⟩
  · by_cases hkey : m.document.key = k
    · subst hkey
      exact (Roster.deliver_congr (a.sights _ hk)).2
    · dsimp only
      rw [Roster.sight_deliver _ (.inl hkey), Roster.sight_deliver _ (.inl hkey), a.sights k hk]
  · simp only [List.filter_append]
    by_cases hkey : m.document.key = k
    · subst hkey
      rw [(Roster.deliver_congr (a.sights _ hk)).1, a.calls _ hk]
    · rw [hother k hkey, hother k hkey, a.calls k hk]

/-- A message about another document, or about a link. -/
theorem tellOwners_other (h : Hub) {m : Message}
    (hm : (∀ k, T k → m.document.key ≠ k) ∨ m.isLink = true) : Agree N T h (h.tellOwners m).1 := by
  obtain ⟨js, hh⟩ := h.tellOwners_eq m
  rw [hh]
  refine ⟨rfl, rfl, fun _ _ => rfl, fun _ _ => rfl, fun k hk => ?_, fun k hk => ?_⟩
  · exact Roster.sight_deliver _ (hm.imp (· k hk) id)
  · have hnone : ((h.roster.deliver m).1.told.map fun t => Call.told t.1 t.2.1).filter
        (Call.isAbout k) = [] := by
      rw [List.filter_eq_nil_iff]
      intro c hc
      obtain ⟨t, ht, rfl⟩ := List.mem_map.mp hc
      rcases hm with hm | hm
      · simp [Call.isAbout, h.roster.document_told m t ht, hm k hk]
      · have hlink := List.mem_map_of_mem
          (f := fun t : String × Message × Receipt => (t.1, t.2.1)) ht
        rw [Roster.told_deliver_link _ hm] at hlink
        obtain ⟨w, _, he⟩ := List.mem_map.mp hlink
        rw [Prod.mk.injEq] at he
        simp [Call.isAbout, ← he.2, hm]
    dsimp only
    rw [List.filter_append, hnone, List.append_nil]

theorem isGood (a : Agree N T h g) {n : Notice} (hn : T n.document.key) :
    g.isGood n = h.isGood n := by
  have hd := congrArg (Option.map Document.life) (a.documents _ hn)
  simp only [Option.map_map] at hd
  exact isGood_congr hd

theorem deliver (a : Agree N T h g) {n : Notice} (hn : T n.document.key) :
    Agree N T (h.deliver n).1 (g.deliver n).1 := by
  rw [deliver_eq, deliver_eq, a.isGood hn]
  split
  · exact a.tellOwners _
  · exact a.note _ _

theorem deliver_other (h : Hub) {n : Notice} (hn : ¬ T n.document.key) :
    Agree N T h (h.deliver n).1 := by
  rw [deliver_eq]
  split
  · refine tellOwners_other h (.inl fun k hk he => hn ?_)
    rw [Notice.document_message] at he
    exact he ▸ hk
  · exact withJournal _

theorem publishLinks (notebook : String) (token : Token) (total : Nat) (h : Hub)
    (links : List Link) :
    Agree N T h (Hub.publishLinks notebook token total h links) := by
  induction links generalizing h with
  | nil => exact withJournal _
  | cons l links ih =>
    unfold Hub.publishLinks
    split
    · exact (tellOwners_other h (.inr rfl)).trans (ih _)
    · exact withJournal _

theorem foldl_deliver (a : Agree N T h g) {ns : List Notice} (hT : ∀ n ∈ ns, T n.document.key) :
    Agree N T (ns.foldl (fun h n => (h.deliver n).1) h)
      (ns.foldl (fun h n => (h.deliver n).1) g) := by
  induction ns generalizing h g with
  | nil => exact a
  | cons n ns ih =>
    exact ih (a.deliver (hT n (by simp))) fun m hm => hT m (List.mem_cons_of_mem n hm)

/-- Errands deliver their notices; what else they do is about chains. -/
theorem deliver_notices (h : Hub) {es : List Errand} (hT : ∀ n ∈ noticesOf es, T n.document.key) :
    Agree N T (es.foldl carryOut h) ((noticesOf es).foldl (fun h n => (h.deliver n).1) h) := by
  induction es generalizing h with
  | nil => exact refl h
  | cons e es ih =>
    cases e with
    | notice n => exact ih _ fun m hm => hT m (List.mem_cons_of_mem n hm)
    | publish p =>
      have hstart : Agree N T (h.carryOut (.publish p)) h := (publishLinks ..).symm
      exact (ih (h.carryOut (.publish p)) hT).trans (hstart.foldl_deliver hT)

theorem foldl_carryOut (a : Agree N T h g) {es fs : List Errand} (he : noticesOf es = noticesOf fs)
    (hT : ∀ n ∈ noticesOf es, T n.document.key) :
    Agree N T (es.foldl carryOut h) (fs.foldl carryOut g) := by
  refine (deliver_notices h hT).trans ((a.foldl_deliver hT).trans ?_)
  have hT' : ∀ n ∈ noticesOf fs, T n.document.key := he ▸ hT
  rw [he]
  exact (deliver_notices g hT').symm

/-- Errands about other documents. -/
theorem foldl_carryOut_other (h : Hub) {es : List Errand}
    (hT : ∀ n ∈ noticesOf es, ¬ T n.document.key) :
    Agree N T h (es.foldl carryOut h) := by
  induction es generalizing h with
  | nil => exact refl h
  | cons e es ih =>
    cases e with
    | notice n =>
      exact (deliver_other h (hT n (by simp [noticesOf, Errand.notice?]))).trans
        (ih _ fun m hm => hT m (List.mem_cons_of_mem n hm))
    | publish p => exact (publishLinks ..).trans (ih _ hT)

end Agree
end Hub
end NotebookHub
