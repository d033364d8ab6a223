import NotebookHub.Proofs.Matching
import NotebookHub.Proofs.Mirror

namespace NotebookHub

namespace Notification

def worksOn (N : Key) : Notification → Bool
  | .saveNotebook _ => false
  | n => n.isNotebook && Uri.key n.uri = .ok N

theorem worksOn_iff {n : Notification} {N : Key} :
    n.worksOn N = true ↔ n.About N ∧ ∀ uri, n ≠ .saveNotebook uri := by
  cases n <;> simp [worksOn, About, isNotebook]

/-- The documents that it touches are counted to its own notebook and to no other. -/
def Within (T : Key → Key → Prop) (n : Notification) : Prop :=
  ∀ M, n.About M → ∀ k, n.Touches k → ∀ N, T N k ↔ N = M

end Notification

namespace Hub

section One

variable {N : Key} {T : Key → Prop} {h g : Hub}

theorem Alike.self (a : Alike N T h g) : Alike N T h h := ⟨⟨.refl h, a.toSettled⟩, a.keyed⟩

theorem Alike.other (a : Alike N T h g) : Alike N T g g := a.self.extend a.toAgree a.toAgree

theorem Alike.mono {S : Key → Prop} (a : Alike N T h g) (hS : ∀ k, S k → T k) : Alike N S h g where
  settings := a.settings
  notebook := a.notebook
  documents k hk := a.documents k (hS k hk)
  lives k hk := a.lives k (hS k hk)
  sights k hk := a.sights k (hS k hk)
  calls k hk := a.calls k (hS k hk)
  filed := a.filed
  addressed k d hk := a.addressed k d (hS k hk)
  keyed := a.keyed

/-- Speaking to workspaces leaves in order what is in order. -/
theorem Alike.speak {h' g' : Hub} (a : Alike N T h g) (ha : Agree N T h' g') (hs : Speaks h h') :
    Alike N T h' g' where
  toAgree := ha
  filed := hs.store ▸ a.filed
  addressed := hs.documents ▸ a.addressed
  keyed n hn := a.keyed n (hs.store ▸ hn)

/-- The notices of a notification are about documents that it touches. -/
theorem notices_of_begin {n : Notification} {token : Option Token} {h' : Hub} {es : List Errand}
    (a : Alike N T h g) (hn : n.About N) (hT : ∀ k, n.Touches k → T k)
    (hrun : (begin n token).on h = (h', .ok es)) :
    ∀ x ∈ noticesOf es, n.Touches x.document.key := by
  have htouched : ∀ k, n.Touches k → n.Touches k := fun _ => id
  obtain ⟨_, fs, _, hsame, _⟩ := begin_matches hn htouched (Eq.refl token.isSome) h h h' es
    (a.self.mono hT) hrun
  exact hsame.2

/-- What a handler registers on one hub and then delivers, the whole notification does on the
other. -/
theorem handle_follows {n : Notification} {token : Option Token} {h' : Hub} {es : List Errand}
    (a : Alike N T h g) (hn : n.worksOn N = true) (hT : ∀ k, n.Touches k → T k)
    (htoken : token.isSome = n.restarts) (hrun : (begin n token).on h = (h', .ok es)) :
    ∃ g', g.handle n = (g', none) ∧ Alike N T (es.foldl carryOut h') g' := by
  obtain ⟨habout, hsave⟩ := Notification.worksOn_iff.mp hn
  have htokens : token.isSome = (g.ticket n N).token.isSome := by rw [htoken, isSome_token_ticket]
  have astart : Alike N T h { g with passes := g.passesAt n N } :=
    a.extend (.refl h) (.withPasses _)
  obtain ⟨g', fs, hbegin, hsame, a'⟩ := begin_matches habout hT htokens h _ h' es astart hrun
  have hfold := a'.toAgree.foldl_carryOut hsame.1 hsame.2
  refine ⟨(fs.foldl carryOut g').conclude n (g.ticket n N).lock,
    handle_of_ok hsave habout.2 hbegin, ?_⟩
  rw [conclude_eq]
  exact (a'.speak hfold (foldl_carryOut_speaks h' es)).extend (.refl _) (.withPasses _)

theorem handle_alike {n : Notification} {h' : Hub} (a : Alike N T h g) (hn : n.worksOn N = true)
    (hT : ∀ k, n.Touches k → T k) (hrun : h.handle n = (h', none)) :
    ∃ g', g.handle n = (g', none) ∧ Alike N T h' g' := by
  obtain ⟨habout, hsave⟩ := Notification.worksOn_iff.mp hn
  rcases handle_eq_ok hrun with ⟨uri, rfl, _⟩ | ⟨k, h₁, es, hk, hbegin, rfl⟩
  · exact absurd rfl (hsave uri)
  · have astart : Alike N T { h with passes := h.passesAt n k } g := a.extend
      (.withPasses _) (.refl g)
    obtain ⟨g', hg, a'⟩ := handle_follows astart hn hT (h.isSome_token_ticket n k) hbegin
    rw [conclude_eq]
    exact ⟨g', hg, a'.extend (.withPasses _) (.refl g')⟩

/-- A notification about another notebook. -/
theorem handle_elsewhere {n : Notification} {M : Key} {S : Key → Prop} {g' : Hub}
    (b : Alike M S g g)
    (hn : n.worksOn M = true) (hS : ∀ k, n.Touches k → S k) (hN : N ≠ M)
    (hT : ∀ k, n.Touches k → ¬ T k) (hrun : g.handle n = (g', none)) : Agree N T g g' := by
  obtain ⟨habout, hsave⟩ := Notification.worksOn_iff.mp hn
  rcases handle_eq_ok hrun with ⟨uri, rfl, _⟩ | ⟨k, h₁, es, hk, hbegin, rfl⟩
  · exact absurd rfl (hsave uri)
  · have hother : ¬ n.About N := fun he => hN (Except.ok.inj (he.2.symm.trans habout.2))
    have hstart : Alike M S { g with passes := g.passesAt n k } g :=
      b.extend (.withPasses _) (.refl g)
    have hnotices := notices_of_begin hstart habout hS hbegin
    have hr := registers_of_begin (C := fun _ => True) hbegin fun _ _ => trivial
    rw [conclude_eq]
    have hregistered : Agree N T g h₁ :=
      (Agree.withPasses _).trans (.of_registers hr hother fun k hk ht => hT k ht hk)
    have htold : Agree N T h₁ (es.foldl carryOut h₁) :=
      .foldl_carryOut_other h₁ fun x hx => hT _ (hnotices x hx)
    exact (hregistered.trans htold).trans (.withPasses _)

end One

theorem handleAll_snoc {h g g' : Hub} {ns : List Notification} {n : Notification}
    (hns : h.handleAll ns = .ok g) (hn : g.handle n = (g', none)) :
    h.handleAll (ns ++ [n]) = .ok g' := by
  induction ns generalizing h with
  | nil =>
    cases hns
    simp [handleAll, hn]
  | cons m ns ih =>
    rw [handleAll] at hns
    rw [List.cons_append, handleAll]
    split at hns
    · exact ih hns
    · cases hns

/-- Handling many notebooks' notifications in turn comes, for each notebook, to handling its own. -/
theorem handleAll_each {T : Key → Key → Prop} {P : Key → Hub → Prop}
    {ns : List Notification} {g : Hub}
    (hns : ∀ n ∈ ns, n.Within T ∧ ((∃ uri, n = .saveNotebook uri) ∨ ∃ M, n.worksOn M = true))
    (hrun : ∀ N, ∃ h e, Alike N (T N) h g ∧ h.handleAll (ns.filter (·.worksOn N)) = .ok e ∧ P N e) :
    ∃ g', g.handleAll ns = .ok g' ∧ ∀ N, ∃ e, P N e ∧ Agree N (T N) e g' := by
  induction ns generalizing g with
  | nil =>
    refine ⟨g, rfl, fun N => ?_⟩
    obtain ⟨h, e, a, he, hP⟩ := hrun N
    cases he
    exact ⟨h, hP, a.toAgree⟩
  | cons n ns ih =>
    obtain ⟨hwithin, hkind⟩ := hns n (by simp)
    have hrest := fun m hm => hns m (List.mem_cons_of_mem n hm)
    rcases hkind with ⟨uri, rfl⟩ | ⟨M, hM⟩
    · apply ih hrest
      intro N
      obtain ⟨h, e, a, he, hP⟩ := hrun N
      exact ⟨h, e, a.extend (.refl h) (.withJournal _),
        by simpa [Notification.worksOn] using he, hP⟩
    · have habout := (Notification.worksOn_iff.mp hM).1
      have hown : ∀ k, n.Touches k → T M k := fun k hk => (hwithin M habout k hk M).mpr rfl
      obtain ⟨h, e, a, he, hP⟩ := hrun M
      rw [List.filter_cons_of_pos hM, handleAll] at he
      split at he
      · rename_i h' hh
        obtain ⟨g', hg, a'⟩ := handle_alike a hM hown hh
        rw [handleAll, hg]
        apply ih hrest
        intro N
        by_cases hN : N = M
        · subst hN
          exact ⟨h', e, a', he, hP⟩
        · obtain ⟨h₂, e₂, a₂, he₂, hP₂⟩ := hrun N
          have hskip : ¬ n.worksOn N = true := fun hw =>
            hN (Except.ok.inj ((Notification.worksOn_iff.mp hw).1.2.symm.trans habout.2))
          rw [List.filter_cons_of_neg hskip] at he₂
          have hapart := handle_elsewhere a.other hM hown hN
            (fun k hk ht => hN ((hwithin M habout k hk N).mp ht)) hg
          exact ⟨h₂, e₂, a₂.extend (.refl h₂) hapart, he₂, hP₂⟩
      · cases he

end Hub
end NotebookHub
