import Mathlib.Data.List.Induction
import NotebookHub.Proofs.Publishing
import NotebookHub.Proofs.Staging

namespace NotebookHub

/-- Once it starts, the passes of the notebook that are under way are stale. -/
def Event.Supersedes (k : Key) : Event → Prop
  | .arrive n => (n.restarts = true ∨ n.isClose = true) ∧ Uri.key n.uri = .ok k
  | .resume _ => False
  | .shutdown => True

namespace Passes

theorem current_supersede {p : Passes} {k k' : Key} {g : Nat}
    (hc : (p.supersede k).1.current.get? k' = some g) :
    k = k' ∧ g = p.issued + 1 ∨ k ≠ k' ∧ p.current.get? k' = some g := by
  simp only [supersede, Table.get?_insert] at hc
  split at hc
  · rename_i hk
    exact .inl ⟨hk, (Option.some.inj hc).symm⟩
  · rename_i hk
    exact .inr ⟨hk, hc⟩

theorem current_forget {p : Passes} {k k' : Key} {g : Nat}
    (hc : (p.forget k).current.get? k' = some g) : k ≠ k' ∧ p.current.get? k' = some g := by
  simp only [forget, Table.get?_erase] at hc
  split at hc
  · cases hc
  · rename_i hk
    exact ⟨hk, hc⟩

theorem isCurrent_iff {p : Passes} {t : Token} :
    p.isCurrent t = true ↔ p.current.get? t.notebook = some t.generation := by
  simp [isCurrent]

end Passes

namespace Hub

theorem current_passesAt {h : Hub} {n : Notification} {k k' : Key} {g : Nat}
    (hk : Uri.key n.uri = .ok k) (hc : (h.passesAt n k).current.get? k' = some g) :
    h.passes.current.get? k' = some g ∧ ¬ (Event.arrive n).Supersedes k' ∨
      n.restarts = true ∧ k = k' ∧ g = h.passes.issued + 1 := by
  have hkey (he : Uri.key n.uri = .ok k') : k = k' := Except.ok.inj (hk.symm.trans he)
  unfold passesAt at hc
  split at hc
  · rename_i hr
    rcases Passes.current_supersede hc with ⟨he, hg⟩ | ⟨hne, hc⟩
    · exact .inr ⟨hr, he, hg⟩
    · exact .inl ⟨hc, fun hs => hne (hkey hs.2)⟩
  · rename_i hr
    split at hc
    · obtain ⟨hne, hc⟩ := Passes.current_forget hc
      exact .inl ⟨hc, fun hs => hne (hkey hs.2)⟩
    · rename_i hclose
      exact .inl ⟨hc, fun hs => hs.1.elim hr hclose⟩

theorem issued_passesAt (h : Hub) (n : Notification) (k : Key) :
    h.passes.issued ≤ (h.passesAt n k).issued := by
  unfold passesAt
  split
  · exact Nat.le_succ _
  · split <;> exact Nat.le_refl _

theorem passes_work (h : Hub) (x : Handler) : (h.work x).1.passes = h.passes := by
  cases hp : x.progress with
  | queued => exact (h.work_registers (C := fun _ => True) hp fun _ _ => trivial).passes
  | delivering es => exact (h.work_speaks hp).passes

/-- Only a notebook whose notification begins is changed in the store. -/
theorem store_work (h : Hub) (x : Handler) {k : Key}
    (hk : x.progress = .queued → ¬ x.notification.About k) :
    (h.work x).1.store.get? k = h.store.get? k := by
  cases hp : x.progress with
  | queued => exact (h.work_registers (C := fun _ => True) hp fun _ _ => trivial).store k (hk hp)
  | delivering es => rw [(h.work_speaks hp).store]

theorem filed_work {h : Hub} (hf : h.store.Filed) (x : Handler) : (h.work x).1.store.Filed := by
  cases hp : x.progress with
  | queued => exact (h.work_registers (C := fun _ => True) hp fun _ _ => trivial).filed hf
  | delivering es => rwa [(h.work_speaks hp).store]

/-- What is left of a pass after a lookup is the end of what was there. -/
theorem passes_resume {h : Hub} {es : List Errand} {pass : ChainPass}
    (hp : pass ∈ passesOf (h.resume es).2) :
    ∃ whole ∈ passesOf es, pass.token = whole.token ∧ pass.links <:+ whole.links := by
  cases es with
  | nil => simp [resume, passesOf] at hp
  | cons e es =>
    have hmem := (proceed_suffix _ _).subset (mem_passesOf.mp hp)
    rcases List.mem_append.mp hmem with hmem | hmem
    · cases e with
      | notice n => simp at hmem
      | publish p =>
        obtain ⟨notebook, token, links, total⟩ := p
        cases links with
        | nil => simp at hmem
        | cons l links =>
          simp only at hmem
          split at hmem
          · obtain rfl := Errand.publish.inj (List.mem_singleton.mp hmem)
            exact ⟨⟨notebook, token, l :: links, total⟩, mem_passesOf.mpr (by simp), rfl,
              List.suffix_cons ..⟩
          · simp at hmem
    · exact ⟨pass, mem_passesOf.mpr (List.mem_cons_of_mem e hmem), rfl, List.suffix_refl _⟩

/-- A handler that begins leaves to be published what it has just staged. -/
theorem passes_begin {h : Hub} {x : Handler} {es : List Errand} {pass : ChainPass}
    (hf : h.store.Filed) (hq : x.progress = .queued) (hw : (h.work x).2 = .ok es)
    (hp : pass ∈ passesOf es) :
    ∃ k, x.notification.About k ∧ x.ticket.token = some pass.token ∧
      (h.work x).1.Staged k pass := by
  obtain ⟨g, fs, hrun, hwork, rfl⟩ := work_begins hq hw
  obtain ⟨journal, he⟩ := g.proceed_eq fs
  have hmem := mem_passesOf.mpr ((proceed_suffix g fs).subset (mem_passesOf.mp hp))
  obtain ⟨k, habout, htoken, _, hstaged⟩ := begin_passes hrun hf hmem
  refine ⟨k, habout, htoken, ?_⟩
  rw [hwork, he]
  exact hstaged

end Hub

namespace Dispatcher

/-- A handler that works leaves the passes alone, unless it was for the change of a notebook that is
not open. -/
theorem passes_work (d : Dispatcher) (x : Handler) :
    (d.work x).hub.passes = d.hub.passes ∨
      ∃ uri version change k, x.notification = .changeNotebook uri version change ∧
        x.ticket.lock = .notebook k ∧ (d.hub.work x).1.store.get? k = none ∧
        (d.work x).hub.passes = d.hub.passes.forget k := by
  have hw := d.hub.passes_work x
  rcases work_cases d x with ⟨fault, he, _⟩ | ⟨e, es, he, _⟩
  · rw [he]
    simp only [conclude, Hub.conclude_eq]
    unfold Hub.passesAfter
    split
    · rename_i uri version change k hn hl
      cases hopen : (d.hub.work x).1.store.get? k with
      | none => exact .inr ⟨uri, version, change, k, hn, hl, hopen, by simp [hw]⟩
      | some n => exact .inl (by simp [hw])
    · exact .inl hw
  · rw [he]
    exact .inl hw

theorem current_work {d : Dispatcher} {x : Handler} {k : Key} {g : Nat}
    (hc : (d.work x).hub.passes.current.get? k = some g) :
    d.hub.passes.current.get? k = some g := by
  rcases d.passes_work x with he | ⟨_, _, _, k', _, _, _, he⟩
  · rwa [he] at hc
  · rw [he] at hc
    exact (Passes.current_forget hc).2

theorem issued_work (d : Dispatcher) (x : Handler) :
    (d.work x).hub.passes.issued = d.hub.passes.issued := by
  rcases d.passes_work x with he | ⟨_, _, _, k', _, _, _, he⟩
  · rw [he]
  · rw [he]
    rfl

/-- A token that is current after a step was current before and is not superseded, or was issued. -/
theorem current_step {d : Dispatcher} (ho : d.Orderly) (e : Event) {k : Key} {g : Nat}
    (hc : (d.step e).hub.passes.current.get? k = some g) :
    d.hub.passes.current.get? k = some g ∧ ¬ e.Supersedes k ∨
      ∃ n, e = .arrive n ∧ n.restarts = true ∧ Uri.key n.uri = .ok k ∧
        g = d.hub.passes.issued + 1 := by
  have hstep := step_happens ho e
  generalize d.step e = d' at hstep hc ⊢
  have hjoin {n : Notification} {k' : Key} (hk : Uri.key n.uri = .ok k')
      (hc : (d.join n k').hub.passes.current.get? k = some g) :
      d.hub.passes.current.get? k = some g ∧ ¬ (Event.arrive n).Supersedes k ∨
        ∃ n', Event.arrive n = .arrive n' ∧ n'.restarts = true ∧ Uri.key n'.uri = .ok k ∧
          g = d.hub.passes.issued + 1 := by
    rcases Hub.current_passesAt hk hc with hold | ⟨hr, rfl, hg⟩
    · exact .inl hold
    · exact .inr ⟨n, rfl, hr, hk, hg⟩
  cases hstep with
  | save uri =>
    exact .inl ⟨hc, by simp [Event.Supersedes, Notification.restarts, Notification.isClose]⟩
  | refuse hn hk =>
    refine .inl ⟨hc, fun hs => ?_⟩
    have hkey := hk.symm.trans hs.2
    cases hkey
  | wait hn hk => exact hjoin hk hc
  | begin hn hk hx => exact hjoin hk (current_work hc)
  | idle hid => exact .inl ⟨hc, id⟩
  | resume hx => exact .inl ⟨current_work hc, id⟩
  | shutdown => simp [Hub.shutdown, Hub.clearWorkspaces, Passes.reset] at hc

theorem issued_step {d : Dispatcher} (ho : d.Orderly) (e : Event) :
    d.hub.passes.issued ≤ (d.step e).hub.passes.issued := by
  have hstep := step_happens ho e
  generalize d.step e = d' at hstep ⊢
  cases hstep with
  | save uri => exact Nat.le_refl _
  | refuse hn hk => exact Nat.le_refl _
  | wait hn hk => exact d.hub.issued_passesAt _ _
  | begin hn hk hx =>
    rw [issued_work]
    exact d.hub.issued_passesAt _ _
  | idle hid => exact Nat.le_refl _
  | resume hx => rw [issued_work]
  | shutdown => exact Nat.le_refl _

/-- A token was issued on an arrival, and nothing has superseded it since. -/
def Issued (d : Dispatcher) (events : List Event) (t : Token) : Prop :=
  ∃ before n after, events = before ++ .arrive n :: after ∧ n.restarts = true ∧
    Uri.key n.uri = .ok t.notebook ∧ t.generation = (d.run before).hub.passes.issued + 1 ∧
    ∀ e ∈ after, ¬ e.Supersedes t.notebook

theorem run_snoc (d : Dispatcher) (es : List Event) (e : Event) :
    d.run (es ++ [e]) = (d.run es).step e := by
  simp [run]

theorem issued_of_current {d : Dispatcher} (ho : d.Orderly) (hd : d.hub.passes.current = .empty)
    (events : List Event) {t : Token} (hc : (d.run events).hub.passes.isCurrent t = true) :
    d.Issued events t := by
  rw [Passes.isCurrent_iff] at hc
  induction events using List.reverseRecOn with
  | nil =>
    have hnone : d.hub.passes.current.get? t.notebook = none := by rw [hd]; rfl
    simp [run, hnone] at hc
  | append_singleton events e ih =>
    rw [run_snoc] at hc
    rcases current_step (ho.run events) e hc with ⟨hold, hs⟩ | ⟨n, rfl, hr, hk, hg⟩
    · obtain ⟨before, n, after, rfl, hr, hk, hg, hafter⟩ := ih hold
      refine ⟨before, n, after ++ [e], by simp, hr, hk, hg, fun e' he' => ?_⟩
      rcases List.mem_append.mp he' with he' | he'
      · exact hafter e' he'
      · exact List.mem_singleton.mp he' ▸ hs
    · exact ⟨events, n, [], rfl, hr, hk, hg, by simp⟩

/-- What is under way agrees with the books: tickets with the tokens issued, and passes that are
still current with the cells at hand. -/
structure Sound (d : Dispatcher) : Prop where
  filed : d.hub.store.Filed
  current : ∀ t, d.hub.passes.isCurrent t = true → t.generation ≤ d.hub.passes.issued
  ticket : ∀ x ∈ d.handlers, ∃ k, Uri.key x.notification.uri = .ok k ∧
    (x.notification.isNotebook = true → x.ticket.lock = .notebook k) ∧
    ∀ t, x.ticket.token = some t → t.notebook = k ∧ t.generation ≤ d.hub.passes.issued
  passes : ∀ x ∈ d.handlers, ∀ es, x.progress = .delivering es →
    ∀ pass ∈ passesOf es, x.notification.isNotebook = true ∧ x.ticket.token = some pass.token ∧
    (d.hub.passes.isCurrent pass.token = true →
      ∃ whole, d.hub.Staged pass.token.notebook whole ∧ pass.links <:+ whole.links)

/-- A handler that is about a notebook works under its lock. -/
theorem Sound.lock_of_about {d : Dispatcher} {x : Handler} (hs : d.Sound) (hx : x ∈ d.handlers)
    {k : Key} (habout : x.notification.About k) : x.ticket.lock = .notebook k := by
  obtain ⟨k', hk', hlock, _⟩ := hs.ticket x hx
  obtain rfl : k' = k := Except.ok.inj (hk'.symm.trans habout.2)
  exact hlock habout.1

theorem sound_start {hub : Hub} (hf : hub.store.Filed) (hp : hub.passes.current = .empty) :
    (start hub).Sound where
  filed := hf
  current t hc := by
    rw [Passes.isCurrent_iff] at hc
    have hnone : hub.passes.current.get? t.notebook = none := by rw [hp]; rfl
    simp [start, hnone] at hc
  ticket := by simp [start]
  passes := by simp [start]

namespace Sound

variable {d : Dispatcher} {x : Handler}

theorem join (hs : d.Sound) {n : Notification} {k : Key} (hk : Uri.key n.uri = .ok k) :
    (d.join n k).Sound where
  filed := hs.filed
  current t hc := by
    rw [Passes.isCurrent_iff] at hc
    have hle := d.hub.issued_passesAt n k
    rcases Hub.current_passesAt hk hc with ⟨hold, _⟩ | ⟨hr, _, hg⟩
    · exact Nat.le_trans (hs.current t (Passes.isCurrent_iff.mpr hold)) hle
    · rw [hg]
      simp [Dispatcher.join, Hub.passesAt, hr, Passes.supersede]
  ticket x hx := by
    have hle := d.hub.issued_passesAt n k
    rcases List.mem_append.mp hx with hx | hx
    · obtain ⟨k', hk', hl, ht⟩ := hs.ticket x hx
      exact ⟨k', hk', hl, fun t he => ⟨(ht t he).1, Nat.le_trans (ht t he).2 hle⟩⟩
    · obtain rfl := List.mem_singleton.mp hx
      refine ⟨k, hk, fun hn => by simp [newcomer, Hub.ticket, show n.isNotebook = true from hn],
        fun t he => ?_⟩
      simp only [newcomer, Hub.ticket] at he
      split at he
      · rename_i hr
        obtain rfl := Option.some.inj he
        simp [Dispatcher.join, Hub.passesAt, hr, Passes.supersede]
      · cases he
  passes x hx es hp pass hpass := by
    rcases List.mem_append.mp hx with hx | hx
    · obtain ⟨hn, htoken, hcurrent⟩ := hs.passes x hx es hp pass hpass
      refine ⟨hn, htoken, fun hc => ?_⟩
      obtain ⟨k', _, _, ht⟩ := hs.ticket x hx
      rw [Passes.isCurrent_iff] at hc
      rcases Hub.current_passesAt hk hc with ⟨hold, _⟩ | ⟨_, _, hg⟩
      · exact hcurrent (Passes.isCurrent_iff.mpr hold)
      · have hle := (ht pass.token htoken).2
        omega
    · obtain rfl := List.mem_singleton.mp hx
      cases hp

end Sound

/-- After a handler has worked the others stand where they stood. -/
theorem mem_work {d : Dispatcher} {x y : Handler} (hy : y ∈ (d.work x).handlers) :
    y ∈ d.handlers ∧ y.id ≠ x.id ∨
      y.id = x.id ∧ ∃ z ∈ d.handlers, z.id = x.id ∧
        ∃ e es, y = { z with progress := .delivering (e :: es) } ∧
        (d.hub.work x).2 = .ok (e :: es) := by
  rcases work_cases d x with ⟨fault, he, _⟩ | ⟨e, es, he, hr⟩
  · rw [he] at hy
    obtain ⟨hy, hid⟩ := List.mem_filter.mp hy
    exact .inl ⟨hy, by simpa using hid⟩
  · rw [he] at hy
    obtain ⟨z, hz, rfl⟩ := List.mem_map.mp hy
    split
    · rename_i hid
      exact .inr ⟨hid, z, hz, hid, e, es, rfl, hr⟩
    · rename_i hid
      exact .inl ⟨hz, hid⟩

theorem store_work (d : Dispatcher) (x : Handler) :
    (d.work x).hub.store = (d.hub.work x).1.store := by
  obtain ⟨passes, he⟩ := work_hub d x
  rw [he]

theorem staged_work {d : Dispatcher} {x : Handler} {k : Key} {pass : ChainPass}
    (hk : x.progress = .queued → ¬ x.notification.About k) (hp : d.hub.Staged k pass) :
    (d.work x).hub.Staged k pass := by
  have hcells : (d.work x).hub.cellsAt k = d.hub.cellsAt k := by
    simp only [Hub.cellsAt, Dispatcher.store_work, Hub.store_work d.hub x hk]
  unfold Hub.Staged at hp ⊢
  rwa [hcells]

/-- While a handler that has begun is at a lookup, whoever else may work is of another notebook. -/
theorem Sound.not_about {d : Dispatcher} {x y : Handler} (hs : d.Sound) (ho : d.Orderly)
    (hx : d.Leads x) (hy : y ∈ d.handlers) (hid : y.id ≠ x.id) (hp : y.progress ≠ .queued) {k : Key}
    (habout : y.notification.About k) : ¬ x.notification.About k := by
  intro hxk
  have hlock : y.ticket.lock = x.ticket.lock :=
    (hs.lock_of_about hy habout).trans (hs.lock_of_about hx.mem hxk).symm
  have hyx : y = x := Orderly.eq_of_leads (ho.leads_of_begun hy hp) hx hlock
  exact hid (hyx ▸ rfl)

/-- What a handler is left with agrees with the books: it has just been staged, or it is the end of
what was there. -/
theorem Sound.passes_of_work {d : Dispatcher} {x : Handler} (hs : d.Sound) (hx : x ∈ d.handlers)
    {es : List Errand} (hw : (d.hub.work x).2 = .ok es) {pass : ChainPass}
    (hpass : pass ∈ passesOf es) :
    x.notification.isNotebook = true ∧ x.ticket.token = some pass.token ∧
      ((d.work x).hub.passes.isCurrent pass.token = true →
        ∃ whole, (d.work x).hub.Staged pass.token.notebook whole ∧ pass.links <:+ whole.links) := by
  cases hq : x.progress with
  | queued =>
    obtain ⟨k, habout, htoken, hstaged⟩ := Hub.passes_begin hs.filed hq hw hpass
    refine ⟨habout.1, htoken, fun _ => ⟨pass, ?_, List.suffix_refl _⟩⟩
    obtain ⟨k', hk', _, ht⟩ := hs.ticket x hx
    have hkk : k = pass.token.notebook := by
      rw [(ht pass.token htoken).1]
      exact Except.ok.inj (habout.2.symm.trans hk')
    rw [← hkk]
    unfold Hub.Staged Hub.cellsAt at hstaged ⊢
    rwa [Dispatcher.store_work]
  | delivering es₀ =>
    have hr : (d.hub.resume es₀).2 = es := by
      simpa [Hub.work, hq] using hw
    rw [← hr] at hpass
    obtain ⟨pass₀, hpass₀, htoken₀, hlinks₀⟩ := Hub.passes_resume hpass
    obtain ⟨hn, htoken, hcurrent⟩ := hs.passes x hx es₀ hq pass₀ hpass₀
    rw [htoken₀]
    refine ⟨hn, htoken, fun hc => ?_⟩
    rw [Passes.isCurrent_iff] at hc
    obtain ⟨whole, hstaged, hlinks⟩ := hcurrent (Passes.isCurrent_iff.mpr (current_work hc))
    exact ⟨whole, staged_work (fun hq' => by simp [hq] at hq') hstaged, hlinks₀.trans hlinks⟩

theorem Sound.work {d : Dispatcher} {x : Handler} (hs : d.Sound) (ho : d.Orderly) (hx : d.Leads x) :
    (d.work x).Sound where
  filed := by
    rw [Dispatcher.store_work]
    exact Hub.filed_work hs.filed x
  current t hc := by
    rw [issued_work]
    rw [Passes.isCurrent_iff] at hc
    exact hs.current t (Passes.isCurrent_iff.mpr (current_work hc))
  ticket y hy := by
    rw [issued_work]
    rcases mem_work hy with ⟨hy, _⟩ | ⟨_, z, hz, _, e, es, rfl, _⟩
    · exact hs.ticket y hy
    · exact hs.ticket z hz
  passes y hy es hp pass hpass := by
    rcases mem_work hy with ⟨hy, hid⟩ | ⟨_, z, hz, hid, e, fs, rfl, hw⟩
    · obtain ⟨hn, htoken, hcurrent⟩ := hs.passes y hy es hp pass hpass
      obtain ⟨k, hk, _, ht⟩ := hs.ticket y hy
      refine ⟨hn, htoken, fun hc => ?_⟩
      rw [Passes.isCurrent_iff] at hc
      obtain ⟨whole, hstaged, hlinks⟩ := hcurrent (Passes.isCurrent_iff.mpr (current_work hc))
      have habout : y.notification.About pass.token.notebook := by
        rw [(ht pass.token htoken).1]
        exact ⟨hn, hk⟩
      have hother := hs.not_about ho hx hy hid (by simp [hp]) habout
      exact ⟨whole, staged_work (fun _ => hother) hstaged, hlinks⟩
    · obtain rfl := ho.eq_of_id hz hx.mem hid
      cases hp
      exact hs.passes_of_work hz hw hpass

theorem Sound.step {d : Dispatcher} (hs : d.Sound) (ho : d.Orderly) (e : Event) :
    (d.step e).Sound := by
  have hstep := step_happens ho e
  generalize d.step e = d' at hstep ⊢
  cases hstep with
  | save uri => exact { hs with }
  | refuse hn hk => exact { hs with }
  | wait hn hk => exact hs.join hk
  | begin hn hk hx => exact (hs.join hk).work (ho.join _ _) hx
  | idle hid => exact hs
  | resume hx => exact hs.work ho hx
  | shutdown =>
    have hnone (t : Token) : d.hub.shutdown.passes.isCurrent t = false := by
      simp [Hub.shutdown, Hub.clearWorkspaces, Passes.reset, Passes.isCurrent]
    refine ⟨fun k n hn => ?_, fun t hc => ?_, hs.ticket, fun x hx es hp pass hpass => ?_⟩
    · simp [Hub.shutdown, Hub.clearWorkspaces, Store.clear, Store.get?] at hn
    · simp [hnone] at hc
    · obtain ⟨hn, htoken, _⟩ := hs.passes x hx es hp pass hpass
      exact ⟨hn, htoken, fun hc => by simp [hnone] at hc⟩

theorem Sound.run {d : Dispatcher} (hs : d.Sound) (ho : d.Orderly) (events : List Event) :
    (d.run events).Sound := by
  induction events generalizing d with
  | nil => exact hs
  | cons e events ih => exact ih (hs.step ho e) (ho.step e)

theorem linkDue_cases {d : Dispatcher} {e : Event} {pass : ChainPass} {l : Link}
    (hd : d.linkDue e = some (pass, l)) :
    d.hub.passes.isCurrent pass.token = true ∧ ∃ x ∈ d.handlers, ∃ es links, e = .resume x.id ∧
      x.progress = .delivering (.publish pass :: es) ∧ pass.links = l :: links := by
  cases e with
  | arrive n => cases hd
  | shutdown => cases hd
  | resume id =>
    obtain ⟨x, hf, hdue⟩ := Option.bind_eq_some_iff.mp hd
    unfold Handler.linkDue at hdue
    split at hdue
    · rename_i p es hp
      split at hdue
      · cases hdue
      · rename_i l' links hl
        split at hdue
        · rename_i hc
          cases hdue
          refine ⟨hc, x, List.mem_of_find?_eq_some hf, es, links, ?_, hp, hl⟩
          have hid : x.id = id := by simpa using List.find?_some hf
          rw [hid]
        · cases hdue
    · cases hdue

def fresh (settings : Settings) (route : Route) (roster : Roster) : Dispatcher :=
  start { settings, route, roster }

theorem orderly_fresh (settings : Settings) (route : Route) (roster : Roster) :
    (fresh settings route roster).Orderly := orderly_start _

theorem sound_fresh (settings : Settings) (route : Route) (roster : Roster) :
    (fresh settings route roster).Sound :=
  sound_start (fun k n hn => by simp [Store.get?] at hn) rfl

section Told

variable {settings : Settings} {route : Route} {roster : Roster}

/-- Whoever is told a link is told it by the latest pass of the notebook: the notebook is open,
lists no document twice, and lists the cell right behind the document that the link names; and since
the pass got its token neither an opening, a closing or a structural change of the notebook nor a
shutdown has started. -/
theorem told_link_is_current {events : List Event} {e : Event} {w : String} {a : Address}
    {predecessor : Option String}
    (hcall : .told w (.linked a predecessor) ∈
      (((fresh settings route roster).run events).step e).hub.calls.drop
        ((fresh settings route roster).run events).hub.calls.length) :
    ∃ pass, ((fresh settings route roster).run events).linkDue e = some (pass, ⟨a, predecessor⟩) ∧
      (∃ notebook i,
        ((fresh settings route roster).run events).hub.store.get? pass.token.notebook =
        some notebook ∧
        notebook.documents.Nodup ∧ notebook.documents[i]? = some a.uri ∧
        predecessor = if i = 0 then none else notebook.documents[i - 1]?) ∧
      (fresh settings route roster).Issued events pass.token := by
  have ho := (orderly_fresh settings route roster).run events
  have hs := (sound_fresh settings route roster).run (orderly_fresh settings route roster) events
  have hissued : ∀ t, ((fresh settings route roster).run events).hub.passes.isCurrent t = true →
      (fresh settings route roster).Issued events t :=
    fun t hc => issued_of_current (orderly_fresh settings route roster) rfl events hc
  revert hcall hissued ho hs
  generalize (fresh settings route roster).run events = d
  intro hcall ho hs hissued
  obtain ⟨cs, hcs, hfilter⟩ := step_links ho e
  rw [hcs, List.drop_left] at hcall
  have hlink : Call.told w (.linked a predecessor) ∈ d.hub.linkCalls (d.linkDue e) := by
    rw [← hfilter]
    exact List.mem_filter.mpr ⟨hcall, rfl⟩
  cases hdue : d.linkDue e with
  | none => simp [hdue, Hub.linkCalls] at hlink
  | some due =>
    obtain ⟨pass, l⟩ := due
    rw [hdue] at hlink
    obtain ⟨w', _, he⟩ := List.mem_map.mp hlink
    obtain rfl : l = ⟨a, predecessor⟩ := by
      cases l
      simp only [Link.message, Call.told.injEq, Message.linked.injEq] at he
      simp [he.2.1, he.2.2]
    obtain ⟨hc, x, hx, es, links, _, hp, hlinks⟩ := linkDue_cases hdue
    refine ⟨pass, rfl, ?_, hissued _ hc⟩
    obtain ⟨_, _, hcurrent⟩ := hs.passes x hx _ hp pass (mem_passesOf.mpr (by simp))
    obtain ⟨whole, ⟨ds, hds, hnodup, hpairs, _⟩, front, hfront⟩ := hcurrent hc
    obtain ⟨notebook, hn, rfl⟩ := Option.map_eq_some_iff.mp hds
    refine ⟨notebook, front.length, hn, hnodup, ?_⟩
    have hat : (chainLinks notebook.documents)[front.length]? = some (a.uri, predecessor) := by
      rw [← hpairs, ← hfront, hlinks]
      simp [Link.pair]
    exact getElem?_chainLinks.mp hat

/-- The passes that publish a link in a run, one for each link. -/
def passesAlong (d : Dispatcher) : List Event → List ChainPass
  | [] => []
  | e :: events => ((d.linkDue e).map Prod.fst).toList ++ (d.step e).passesAlong events

/-- No token of the notebook that is current from here on is older than `g`. -/
def Floor (d : Dispatcher) (k : Key) (g : Nat) : Prop :=
  g ≤ d.hub.passes.issued ∧ ∀ g', d.hub.passes.current.get? k = some g' → g ≤ g'

theorem Floor.step {d : Dispatcher} (ho : d.Orderly) {k : Key} {g : Nat}
    (hf : d.Floor k g) (e : Event) :
    (d.step e).Floor k g := by
  refine ⟨Nat.le_trans hf.1 (issued_step ho e), fun g' hc => ?_⟩
  rcases current_step ho e hc with ⟨hold, _⟩ | ⟨_, _, _, _, hg⟩
  · exact hf.2 g' hold
  · have hle := hf.1
    omega

theorem Floor.le_passesAlong {d : Dispatcher} (ho : d.Orderly) {k : Key} {g : Nat}
    (hf : d.Floor k g) {events : List Event} {q : ChainPass} (hq : q ∈ d.passesAlong events)
    (hk : q.token.notebook = k) :
    g ≤ q.token.generation := by
  induction events generalizing d with
  | nil => simp [passesAlong] at hq
  | cons e events ih =>
    rcases List.mem_append.mp hq with hq | hq
    · obtain ⟨⟨p, l⟩, hdue, rfl⟩ := Option.map_eq_some_iff.mp (Option.mem_toList.mp hq)
      have hc := Passes.isCurrent_iff.mp (linkDue_cases hdue).1
      rw [hk] at hc
      exact hf.2 _ hc
    · exact ih (ho.step e) (hf.step ho e) hq

/-- Of two passes of a notebook, the older one publishes first. -/
theorem passesAlong_sorted {d : Dispatcher} (ho : d.Orderly) (hs : d.Sound) (events : List Event) :
    (d.passesAlong events).Pairwise fun p q =>
      q.token.notebook = p.token.notebook → p.token.generation ≤ q.token.generation := by
  induction events generalizing d with
  | nil => exact .nil
  | cons e events ih =>
    unfold passesAlong
    refine List.pairwise_append.mpr ⟨?_, ih (ho.step e) (hs.step ho e), ?_⟩
    · cases d.linkDue e <;> simp
    · intro p hp q hq hk
      obtain ⟨⟨p, l⟩, hdue, rfl⟩ := Option.map_eq_some_iff.mp (Option.mem_toList.mp hp)
      have hc := (linkDue_cases hdue).1
      have hfloor : d.Floor p.token.notebook p.token.generation := by
        refine ⟨hs.current _ hc, fun g' hg' => ?_⟩
        rw [Passes.isCurrent_iff, hg'] at hc
        exact Nat.le_of_eq (Option.some.inj hc).symm
      exact (hfloor.step ho e).le_passesAlong (ho.step e) hq hk

/-- The links of two passes of one notebook are never told in between each other. -/
theorem passes_take_turns {events : List Event} {p q r : ChainPass}
    (hsub : [p, q, r].Sublist ((fresh settings route roster).passesAlong events))
    (hpr : p.token = r.token) (hq : q.token.notebook = p.token.notebook) : q.token = p.token := by
  have hsorted := (passesAlong_sorted (orderly_fresh settings route roster)
    (sound_fresh settings route roster) events).sublist hsub
  simp only [List.pairwise_cons, List.mem_cons, List.not_mem_nil, or_false, forall_eq_or_imp,
    forall_eq] at hsorted
  obtain ⟨⟨hpq, _⟩, hqr, _⟩ := hsorted
  have hle := hpq hq
  have hge := hqr (by rw [← hpr, hq])
  rw [← hpr] at hge
  have hg := Nat.le_antisymm hge hle
  revert hg hq
  generalize q.token = t
  generalize p.token = t'
  cases t
  cases t'
  rintro ⟨⟩ ⟨⟩
  rfl

/-- In whatever order things happen, a link is only ever told by the latest pass of its notebook and
as the notebook lists its cells then, and passes of one notebook take turns. -/
theorem chains_never_stale (settings : Settings) (route : Route) (roster : Roster)
    (events : List Event) :
    (∀ before e after, events = before ++ e :: after →
      ∀ w a predecessor, .told w (.linked a predecessor) ∈
        (((fresh settings route roster).run before).step e).hub.calls.drop
          ((fresh settings route roster).run before).hub.calls.length →
      ∃ pass, ((fresh settings route roster).run before).linkDue e = some (pass, ⟨a, predecessor⟩) ∧
        (∃ notebook i,
          ((fresh settings route roster).run before).hub.store.get? pass.token.notebook =
            some notebook ∧
          notebook.documents.Nodup ∧ notebook.documents[i]? = some a.uri ∧
          predecessor = if i = 0 then none else notebook.documents[i - 1]?) ∧
        (fresh settings route roster).Issued before pass.token) ∧
    ∀ p q r, [p, q, r].Sublist ((fresh settings route roster).passesAlong events) →
      p.token = r.token → q.token.notebook = p.token.notebook → q.token = p.token := by
  constructor
  · rintro before e after rfl w a predecessor hcall
    exact told_link_is_current hcall
  · intro p q r hsub hpr hq
    exact passes_take_turns hsub hpr hq

end Told

def secondCell : List Event :=
  [.arrive (.openNotebook ⟨"nb:1", "t", 1, none, [⟨.code, "c:a", none, none⟩]⟩
    [⟨"c:a", .unnamed, 1, ""⟩]),
    .resume 0,
    .arrive (.changeNotebook "nb:1" 2
      ⟨none, some ⟨1, 0, [⟨.code, "c:b", none, none⟩], [⟨"c:b", .unnamed, 1, ""⟩], []⟩, none,
        none⟩),
    .resume 1, .resume 1, .resume 1]

theorem chains_never_stale_secondCell :
    .told "<default>" (.linked ⟨"c:b", ⟨"c:b"⟩, ⟨.relative, ["c:b"]⟩⟩ (some "c:a")) ∈
        ((fresh {} .registry (.start true)).run secondCell).hub.calls ∧
      ∃ pass, ((fresh {} .registry (.start true)).run (secondCell.take 5)).linkDue (.resume 1) =
          some (pass, ⟨⟨"c:b", ⟨"c:b"⟩, ⟨.relative, ["c:b"]⟩⟩, some "c:a"⟩) ∧
        (fresh {} .registry (.start true)).Issued (secondCell.take 5) pass.token := by
  refine ⟨by decide +kernel, ?_⟩
  obtain ⟨pass, hdue, _, hissued⟩ := (chains_never_stale {} .registry (.start true) secondCell).1
    (secondCell.take 5) (.resume 1) [] rfl "<default>"
      ⟨"c:b", ⟨"c:b"⟩, ⟨.relative, ["c:b"]⟩⟩ (some "c:a")
    (by decide +kernel)
  exact ⟨pass, hdue, hissued⟩

end Dispatcher
end NotebookHub
