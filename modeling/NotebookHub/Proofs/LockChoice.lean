import NotebookHub.Proofs.Openings
import NotebookHub.Proofs.Rechaining
import NotebookHub.Proofs.Splices

namespace NotebookHub

namespace Hub

theorem lookups_resume (h : Hub) {e : Errand} (es : List Errand) (he : 0 < e.lookups) :
    lookups (h.resume (e :: es)).2 < lookups (e :: es) := by
  have hleft := h.lookups_perform e he
  have hproceed : lookups (h.resume (e :: es)).2 = lookups ((h.perform e).2.toList ++ es) :=
    ((h.perform e).1.proceed_spec _).2.1
  have hcons : lookups (e :: es) = e.lookups + lookups es := rfl
  rw [hproceed, lookups_append, hcons]
  omega

theorem lockFor_eq_notebook {h : Hub} {k N : Key} :
    h.lockFor k = .notebook N ↔ h.store.owners.get? k = some N ∧
      (h.store.get? N).isSome = true := by
  unfold lockFor
  split
  · rename_i owner howner
    split
    · rename_i hopen
      simp only [LockKey.notebook.injEq, howner, Option.some.injEq]
      exact ⟨by rintro rfl; exact ⟨rfl, hopen⟩, And.left⟩
    · rename_i hopen
      simp only [howner, Option.some.injEq, reduceCtorEq, false_iff]
      rintro ⟨rfl, h⟩
      exact hopen h
  · rename_i hnone
    simp [hnone]

end Hub

namespace Dispatcher

def Queues (d : Dispatcher) (id : Nat) : Prop := ∃ x ∈ d.handlers, x.id = id ∧ x.progress = .queued

instance (d : Dispatcher) (id : Nat) : Decidable (d.Queues id) :=
  inferInstanceAs (Decidable (∃ x ∈ d.handlers, x.id = id ∧ x.progress = .queued))

def Calls (d : Dispatcher) (id : Nat) : Prop := ∃ x ∈ d.handlers, x.id = id ∧ d.isReady x = true

instance (d : Dispatcher) (id : Nat) : Decidable (d.Calls id) :=
  inferInstanceAs (Decidable (∃ x ∈ d.handlers, x.id = id ∧ d.isReady x = true))

theorem Calls.leads {d : Dispatcher} (ho : d.Orderly) {id : Nat} (hc : d.Calls id) :
    ∃ x, d.Leads x ∧ x.id = id ∧ x.progress = .queued := by
  obtain ⟨x, hx, hid, hr⟩ := hc
  obtain ⟨hp, hh⟩ : x.progress = .queued ∧ d.locks.holder? x.ticket.lock = some x.id := by
    simpa [isReady] using hr
  exact ⟨x, ho.leads_of_holder hx hh, hid, hp⟩

/-- Who waits after a run and had arrived before it waited before it. -/
theorem queued_of_mem_run {d : Dispatcher} (ho : d.Orderly) {events : List Event} {y : Handler}
    (hy : y ∈ (d.run events).handlers) (hp : y.progress = .queued) (hid : y.id < d.arrived) :
    y ∈ d.handlers := by
  induction events generalizing d with
  | nil => exact hy
  | cons e events ih =>
    have hstep := ih (ho.step e) hy (Nat.lt_of_lt_of_le hid (arrived_step ho e))
    rcases queued_of_mem_step ho hstep hp with hmem | he
    · exact hmem
    · omega

section Behind

variable {d : Dispatcher} {x y : Handler}

/-- Nobody begins while another stands before it in its line. -/
theorem stays_behind (ho : d.Orderly) (hx : x ∈ d.handlers) (hy : y ∈ d.handlers)
    (hlock : y.ticket.lock = x.ticket.lock) (hless : x.id < y.id) (e : Event) :
    y ∈ (d.step e).handlers := by
  have hstep := step_happens ho e
  generalize d.step e = d' at hstep ⊢
  cases hstep with
  | save uri => exact hy
  | refuse hn hk => exact hy
  | wait hn hk => exact List.mem_append_left _ hy
  | begin hn hk hz =>
    exact mem_work_of_ne (List.mem_append_left _ hy) (Nat.ne_of_lt (ho.arrived y hy))
  | idle hid => exact hy
  | @resume z hz =>
    refine mem_work_of_ne hy fun hid => ?_
    obtain rfl := ho.eq_of_id hy hz.mem hid
    exact absurd hless (Nat.not_lt.mpr (Leads.le ho hz hx hlock.symm))
  | shutdown => exact hy

theorem stays_behind_run (ho : d.Orderly) (hq : x.progress = .queued) (hx : x ∈ d.handlers)
    (hy : y ∈ d.handlers) (hlock : y.ticket.lock = x.ticket.lock) (hless : x.id < y.id)
    {events : List Event} (hwaits : x ∈ (d.run events).handlers) : y ∈ (d.run events).handlers := by
  induction events generalizing d with
  | nil => exact hy
  | cons e events ih =>
    have hfirst : x ∈ (d.step e).handlers :=
      queued_of_mem_run (ho.step e) hwaits hq
        (Nat.lt_of_lt_of_le (ho.arrived x hx) (arrived_step ho e))
    exact ih (ho.step e) hfirst (stays_behind ho hx hy hlock hless e) hwaits

end Behind

/-- Steps of the handlers in one line lead from the one to the other. -/
def Reaches (l : LockKey) (d d' : Dispatcher) : Prop :=
  (∃ events, d' = d.run events) ∧ ∀ l', l ≠ l' → d'.lineAt l' = d.lineAt l'

namespace Reaches

variable {l : LockKey} {d d' d'' : Dispatcher}

theorem refl (d : Dispatcher) : Reaches l d d := ⟨⟨[], rfl⟩, fun _ _ => rfl⟩

theorem trans (hr : Reaches l d d') (hs : Reaches l d' d'') : Reaches l d d'' := by
  obtain ⟨⟨es, rfl⟩, hlines⟩ := hr
  obtain ⟨⟨fs, rfl⟩, hlines'⟩ := hs
  exact ⟨⟨es ++ fs, (run_append d es fs).symm⟩, fun l' hl => (hlines' l' hl).trans (hlines l' hl)⟩

theorem work (ho : d.Orderly) {x : Handler} (hx : d.Leads x) : Reaches x.ticket.lock d (d.work x) :=
  ⟨⟨[.resume x.id], (step_resume ho hx).symm⟩, fun _ hl => lineAt_work ho hx hl⟩

theorem orderly (hr : Reaches l d d') (ho : d.Orderly) : d'.Orderly := by
  obtain ⟨⟨es, rfl⟩, _⟩ := hr
  exact ho.run es

end Reaches

section Lines

variable {d : Dispatcher} {x : Handler}

theorem leads_of_lineAt {rest : List Handler} (hline : d.lineAt x.ticket.lock = x :: rest) :
    d.Leads x := by
  unfold Leads
  rw [hline]
  rfl

/-- The first of a line that has worked has left it, or is still the first. -/
theorem lineAt_work_self (ho : d.Orderly) (hx : d.Leads x) :
    (d.work x).lineAt x.ticket.lock = (d.lineAt x.ticket.lock).tail ∨
      ∃ e es, (d.hub.work x).2 = .ok (e :: es) ∧ (d.work x).lineAt x.ticket.lock =
        { x with progress := .delivering (e :: es) } :: (d.lineAt x.ticket.lock).tail := by
  rcases work_cases d x with ⟨fault, he, _⟩ | ⟨e, es, he, hr⟩
  · left
    rw [he, lineAt_conclude ho hx, if_pos rfl]
  · right
    refine ⟨e, es, hr, ?_⟩
    rw [he, lineAt_leave ho hx, if_pos rfl]

/-- Whoever has begun can be let go on until it leaves its line. -/
theorem exists_cleared_of_begun (ho : d.Orderly) (hx : d.Leads x) {es : List Errand}
    (hp : x.progress = .delivering es) :
    ∃ d', Reaches x.ticket.lock d d' ∧ d'.lineAt x.ticket.lock = (d.lineAt x.ticket.lock).tail := by
  generalize hm : Hub.lookups es = m
  induction m using Nat.strongRecOn generalizing d x es with
  | ind m ih =>
    rcases lineAt_work_self ho hx with hline | ⟨f, fs, hr, hline⟩
    · exact ⟨_, .work ho hx, hline⟩
    · obtain ⟨e, es, rfl, hpos⟩ := ho.atLookup x hx.mem es hp
      have hleft : (d.hub.resume (e :: es)).2 = f :: fs := by
        simp only [Hub.work, hp] at hr
        exact Except.ok.inj hr
      have hless : Hub.lookups (f :: fs) < m := by
        have hdone := d.hub.lookups_resume es hpos
        rwa [hleft, hm] at hdone
      have hlead : (d.work x).Leads { x with progress := .delivering (f :: fs) } :=
        leads_of_lineAt hline
      obtain ⟨d', hreach, hd'⟩ := ih _ hless (ho.work hx) hlead rfl rfl
      refine ⟨d', (Reaches.work ho hx).trans hreach, hd'.trans ?_⟩
      dsimp only
      rw [hline]
      rfl

theorem exists_cleared (ho : d.Orderly) (hx : d.Leads x) :
    ∃ d', Reaches x.ticket.lock d d' ∧ d'.lineAt x.ticket.lock = (d.lineAt x.ticket.lock).tail := by
  rcases lineAt_work_self ho hx with hline | ⟨e, es, _, hline⟩
  · exact ⟨_, .work ho hx, hline⟩
  · have hlead : (d.work x).Leads
        { x with progress := .delivering (e :: es) } := leads_of_lineAt hline
    obtain ⟨d', hreach, hd'⟩ := exists_cleared_of_begun (ho.work hx) hlead rfl
    refine ⟨d', (Reaches.work ho hx).trans hreach, hd'.trans ?_⟩
    dsimp only
    rw [hline]
    rfl

/-- Whoever waits can get its turn while the other lines stand still. -/
theorem exists_turn (ho : d.Orderly) {y : Handler} (hy : y ∈ d.handlers) :
    ∃ d', Reaches y.ticket.lock d d' ∧ d'.Leads y := by
  have hmem : y ∈ d.lineAt y.ticket.lock := mem_lineAt.mpr ⟨hy, rfl⟩
  obtain ⟨front, rest, hline⟩ := List.append_of_mem hmem
  induction front generalizing d with
  | nil => exact ⟨d, .refl d, leads_of_lineAt hline⟩
  | cons z front ih =>
    have hz : z ∈ d.handlers ∧ z.ticket.lock = y.ticket.lock :=
      mem_lineAt.mp (by rw [hline]; exact List.mem_cons_self)
    have hlead : d.Leads z := leads_of_lineAt (hz.2 ▸ hline)
    obtain ⟨d₁, hreach, hd₁⟩ := exists_cleared ho hlead
    rw [hz.2] at hreach hd₁
    have hline₁ : d₁.lineAt y.ticket.lock = front ++ y :: rest := by
      rw [hd₁, hline]
      rfl
    have hmem₁ : y ∈ d₁.lineAt y.ticket.lock := by simp [hline₁]
    obtain ⟨d₂, hreach₂, hd₂⟩ := ih (hreach.orderly ho) (mem_lineAt.mp hmem₁).1 hmem₁ hline₁
    exact ⟨d₂, hreach.trans hreach₂, hd₂⟩

end Lines

section Order

variable {d : Dispatcher} {x : Handler} {n : Notification} {k N : Key}

/-- What is said of a document alone has to wait if it queues for a notebook for which another
handler is in line. -/
theorem step_arrive_behind (ho : d.Orderly) (hk : Uri.key n.uri = .ok k) (hn : n.isNotebook = false)
    (hx : x ∈ d.handlers) (hlock : x.ticket.lock = .notebook N)
    (hl : d.hub.lockFor k = .notebook N) :
    d.step (.arrive n) = d.join n k := by
  have hstep := step_happens ho (.arrive n)
  generalize d.step (.arrive n) = d' at hstep ⊢
  cases hstep with
  | save uri => cases hn
  | refuse _ he =>
    rw [hk] at he
    cases he
  | wait _ hk' =>
    obtain rfl := Except.ok.inj (hk.symm.trans hk')
    rfl
  | begin _ hk' hlead =>
    obtain rfl := Except.ok.inj (hk.symm.trans hk')
    have hticket : x.ticket.lock = (d.newcomer n k).ticket.lock := by
      simp [newcomer, Hub.ticket, hn, hl, hlock]
    have hle := Leads.le (ho.join n k) hlead (List.mem_append_left _ hx) hticket
    exact absurd (ho.arrived x hx) (Nat.not_lt.mpr hle)

/-- It then stands behind that handler. -/
theorem waits_of_lock (ho : d.Orderly) (hk : Uri.key n.uri = .ok k) (hn : n.isNotebook = false)
    (hx : x ∈ d.handlers) (hq : x.progress = .queued) (hlock : x.ticket.lock = .notebook N)
    (hl : d.hub.lockFor k = .notebook N) {events : List Event}
    (hwaits : x ∈ ((d.step (.arrive n)).run events).handlers) :
    d.newcomer n k ∈ ((d.step (.arrive n)).run events).handlers := by
  have hless : x.id < (d.newcomer n k).id := ho.arrived x hx
  have hticket : (d.newcomer n k).ticket.lock = x.ticket.lock := by
    simp [newcomer, Hub.ticket, hn, hl, hlock]
  have hfirst : x ∈ (d.step (.arrive n)).handlers :=
    queued_of_mem_run (ho.step _) hwaits hq
      (Nat.lt_of_lt_of_le (ho.arrived x hx) (arrived_step ho _))
  refine stays_behind_run (ho.step _) hq hfirst ?_ hticket hless hwaits
  rw [step_arrive_behind ho hk hn hx hlock hl]
  exact List.mem_append_right _ (by simp)

/-- It gets ahead, if things come that way, when it queues elsewhere. -/
theorem overtakes_of_lock (ho : d.Orderly) (hk : Uri.key n.uri = .ok k) (hn : n.isNotebook = false)
    (hx : x ∈ d.handlers) (hlock : x.ticket.lock = .notebook N)
    (hl : d.hub.lockFor k ≠ .notebook N) :
    ∃ events, x ∈ ((d.step (.arrive n)).run events).handlers ∧
      ¬ ((d.step (.arrive n)).run events).Queues d.arrived := by
  have hless : x.id < d.arrived := ho.arrived x hx
  have hother : (d.newcomer n k).ticket.lock ≠ .notebook N := by
    simpa [newcomer, Hub.ticket, hn] using hl
  have hbegun (d' : Dispatcher) {y : Handler} (hid : y.id = d.arrived) (hx' : x ∈ d'.handlers) :
      x ∈ (d'.work y).handlers ∧ ¬ (d'.work y).Queues d.arrived := by
    refine ⟨mem_work_of_ne hx' (by omega), ?_⟩
    rintro ⟨z, hz, hzid, hzq⟩
    exact (queued_of_mem_work hz hzq).2 (hzid.trans hid.symm)
  have ho' := ho.step (.arrive n)
  have hstep := step_happens ho (.arrive n)
  generalize d.step (.arrive n) = d' at hstep ho' ⊢
  cases hstep with
  | save uri => cases hn
  | refuse _ he =>
    rw [hk] at he
    cases he
  | begin _ hk' hlead =>
    obtain rfl := Except.ok.inj (hk.symm.trans hk')
    exact ⟨[], hbegun (d.join n k) rfl (List.mem_append_left _ hx)⟩
  | wait _ hk' =>
    obtain rfl := Except.ok.inj (hk.symm.trans hk')
    obtain ⟨d₁, ⟨⟨events, rfl⟩, hlines⟩, hlead⟩ :=
      exists_turn ho' (y := d.newcomer n k) (by simp [Dispatcher.join])
    have hx₁ : x ∈ ((d.join n k).run events).handlers := by
      have hmem : x ∈ (d.join n k).lineAt (.notebook N) :=
        mem_lineAt.mpr ⟨List.mem_append_left _ hx, hlock⟩
      rw [← hlines _ hother] at hmem
      exact (mem_lineAt.mp hmem).1
    refine ⟨events ++ [.resume d.arrived], ?_⟩
    rw [run_append]
    have hresume := step_resume (ho'.run events) hlead
    have hlast : ((d.join n k).run events).run [.resume d.arrived] =
        ((d.join n k).run events).work (d.newcomer n k) := hresume
    rw [hlast]
    exact hbegun _ rfl hx₁

end Order

/-- A handler that waits for notebook `N` is to open document `k`; whoever waits to close the
document waits for the notebook before that handler or behind the handler with the number `last`. -/
structure Expects (d : Dispatcher) (N k : Key) (last : Nat) (x : Handler) : Prop where
  mem : x ∈ d.handlers
  queued : x.progress = .queued
  about : x.notification.About N
  opens : x.notification.opens k = true
  spares : x.notification.closes k = false
  /-- A change opens nothing in a notebook that is closed. -/
  stands : x.notification.opensNotebook N ∨ (d.hub.store.get? N).isSome = true ∧
    ∀ y ∈ d.handlers, y.progress = .queued → y.notification.About N →
      y.notification.isClose = true → x.id < y.id
  closers : ∀ y ∈ d.handlers, y.progress = .queued → y.notification.closes k = true →
    y.ticket.lock = .notebook N ∧ (y.id < x.id ∨ last < y.id)

/-- The document is open, and whoever waits to close it waits for the notebook behind that
number. -/
structure Keeps (d : Dispatcher) (N k : Key) (last : Nat) : Prop where
  isOpen : d.hub.HasOpen k
  closers : ∀ y ∈ d.handlers, y.progress = .queued → y.notification.closes k = true →
    y.ticket.lock = .notebook N ∧ last < y.id

section Taking

variable {d : Dispatcher} {N k : Key} {last : Nat} {x : Handler}

theorem hasOpen_work {z : Handler} (hz : z.progress = .queued → z.notification.closes k = false)
    (hk : d.hub.HasOpen k) : (d.work z).hub.HasOpen k := by
  obtain ⟨passes, hhub⟩ := work_hub d z
  rw [hhub]
  exact Hub.work_preserves (fun _ _ hs hk => hs.chains.hasOpen hk)
    (fun hp => Hub.begin_keeps_open z.ticket.token (hz hp)) hk

theorem Keeps.work (hh : d.Keeps N k last) (ho : d.Orderly) {z y : Handler} (hz : d.Leads z)
    (hy : y ∈ d.handlers) (hid : y.id = last) (hlock : y.ticket.lock = .notebook N) :
    (d.work z).Keeps N k last where
  isOpen := by
    refine hasOpen_work (fun hp => ?_) hh.isOpen
    rw [Bool.eq_false_iff]
    intro hcloses
    obtain ⟨hl, hless⟩ := hh.closers z hz.mem hp hcloses
    have hle := Leads.le ho hz hy (hlock.trans hl.symm)
    omega
  closers w hw hp := hh.closers w (queued_of_mem_work hw hp).1 hp

/-- Once the handler begins, the document is open. -/
theorem Expects.keeps (he : d.Expects N k last x) (hs : d.Sound) (ho : d.Orderly) (hx : d.Leads x)
    {es : List Errand} (hok : (d.hub.work x).2 = .ok es) : (d.work x).Keeps N k last where
  isOpen := by
    obtain ⟨passes, hhub⟩ := work_hub d x
    obtain ⟨g, fs, hrun, hwork, _⟩ := Hub.work_begins he.queued hok
    rw [hhub, hwork]
    exact (g.proceed_speaks fs).chains.hasOpen (Hub.begin_opens he.about he.opens he.spares
      (he.stands.imp id And.left) hrun)
  closers w hw hp hcloses := by
    obtain ⟨hw, _⟩ := queued_of_mem_work hw hp
    obtain ⟨hl, hless⟩ := he.closers w hw hp hcloses
    have hle := Leads.le ho hx hw (hl.trans (hs.lock_of_about hx.mem he.about).symm)
    exact ⟨hl, hless.resolve_left (Nat.not_lt.mpr hle)⟩

/-- While it waits, the notebook stays open if it is to find it open. -/
theorem Expects.work (he : d.Expects N k last x) (hs : d.Sound) (ho : d.Orderly) {z : Handler}
    (hz : d.Leads z) (hne : z.id ≠ x.id) {es : List Errand} (hok : (d.hub.work z).2 = .ok es) :
    (d.work z).Expects N k last x where
  mem := mem_work_of_ne he.mem (Ne.symm hne)
  queued := he.queued
  about := he.about
  opens := he.opens
  spares := he.spares
  stands := by
    refine he.stands.imp id fun ⟨hopen, hcloses⟩ => ⟨?_, fun y hy hp =>
      hcloses y (queued_of_mem_work hy hp).1 hp⟩
    have hcells : ((d.work z).hub.cellsAt N).isSome = true := by
      have hwork : (d.work z).hub.cellsAt N = (d.hub.work z).1.cellsAt N := by
        simp only [Hub.cellsAt, store_work]
      have hlisted : (d.hub.cellsAt N).isSome = true := by simpa [Hub.cellsAt] using hopen
      rw [hwork, Hub.cellsAt_work hs.filed hok]
      split
      · rename_i hbegins
        obtain ⟨hp, hworks⟩ := hbegins
        have habout := (Notification.worksOn_iff.mp hworks).1
        have hkept : z.notification.isClose = false := by
          rw [Bool.eq_false_iff]
          intro hclose
          have hle := Leads.le ho hz he.mem
            ((hs.lock_of_about he.mem he.about).trans (hs.lock_of_about hz.mem habout).symm)
          exact absurd (hcloses z hz.mem hp habout hclose) (Nat.not_lt.mpr hle)
        exact Notification.relist_isSome hkept hlisted
      · exact hlisted
    simpa [Hub.cellsAt] using hcells
  closers y hy hp := he.closers y (queued_of_mem_work hy hp).1 hp

/-- Newcomers that close the document have to be about the notebook. -/
theorem closers_join {n : Notification} {m : Key} {P : Nat → Prop} (hm : Uri.key n.uri = .ok m)
    (hn : n.closes k = true → n.About N) (hP : P d.arrived)
    (hc : ∀ y ∈ d.handlers, y.progress = .queued → y.notification.closes k = true →
      y.ticket.lock = .notebook N ∧ P y.id) :
    ∀ y ∈ (d.join n m).handlers, y.progress = .queued → y.notification.closes k = true →
      y.ticket.lock = .notebook N ∧ P y.id := by
  intro y hy hp hcloses
  rcases List.mem_append.mp hy with hy | hy
  · exact hc y hy hp hcloses
  · obtain rfl := List.mem_singleton.mp hy
    obtain ⟨hnotebook, hkey⟩ := hn hcloses
    obtain rfl : m = N := Except.ok.inj (hm.symm.trans hkey)
    exact ⟨by simp [newcomer, Hub.ticket, hnotebook], hP⟩

theorem Keeps.join (hh : d.Keeps N k last) {n : Notification} {m : Key} (hm : Uri.key n.uri = .ok m)
    (hn : n.closes k = true → n.About N) (hlast : last < d.arrived) :
    (d.join n m).Keeps N k last where
  isOpen := hh.isOpen
  closers := closers_join hm hn hlast hh.closers

theorem Expects.join (he : d.Expects N k last x) (ho : d.Orderly) {n : Notification} {m : Key}
    (hm : Uri.key n.uri = .ok m) (hn : n.closes k = true → n.About N) (hlast : last ≤ d.arrived)
    (hself : last = d.arrived → n.closes k = false) : (d.join n m).Expects N k last x where
  mem := List.mem_append_left _ he.mem
  queued := he.queued
  about := he.about
  opens := he.opens
  spares := he.spares
  stands := by
    refine he.stands.imp id fun ⟨hopen, hcloses⟩ => ⟨hopen, fun y hy hp habout hclose => ?_⟩
    rcases List.mem_append.mp hy with hy | hy
    · exact hcloses y hy hp habout hclose
    · obtain rfl := List.mem_singleton.mp hy
      exact ho.arrived x he.mem
  closers := by
    by_cases hnow : last = d.arrived
    · intro y hy hp hcloses
      rcases List.mem_append.mp hy with hy | hy
      · exact he.closers y hy hp hcloses
      · obtain rfl := List.mem_singleton.mp hy
        rw [show (d.newcomer n m).notification.closes k = n.closes k from rfl,
          hself hnow] at hcloses
        cases hcloses
    · exact closers_join (P := fun id => id < x.id ∨ last < id) hm hn (.inr (by omega)) he.closers

end Taking

section Runs

variable {d : Dispatcher} {N k : Key} {last : Nat} {x y : Handler}

/-- The handler waits, or the document is open. -/
theorem expects_or_keeps_step (hi : d.Expects N k last x ∨ d.Keeps N k last) (hs : d.Sound)
    (ho : d.Orderly) (hlast : last < d.arrived) {e : Event} (he : e ≠ .shutdown)
    (hn : ∀ n, e = .arrive n → n.closes k = true → n.About N) (hu : (d.step e).Unfailing)
    (hy : y ∈ (d.step e).handlers) (hp : y.progress = .queued) (hid : y.id = last)
    (hlock : y.ticket.lock = .notebook N) :
    (d.step e).Expects N k last x ∨ (d.step e).Keeps N k last := by
  have hjoin {n : Notification} {m : Key} (hm : Uri.key n.uri = .ok m)
      (hn : n.closes k = true → n.About N) :
      (d.join n m).Expects N k last x ∨ (d.join n m).Keeps N k last :=
    hi.imp (fun hx => hx.join ho hm hn (Nat.le_of_lt hlast)
      fun he => absurd he (Nat.ne_of_lt hlast))
      fun hh => hh.join hm hn hlast
  have hwork {d : Dispatcher} (hi : d.Expects N k last x ∨ d.Keeps N k last) (hs : d.Sound)
    (ho : d.Orderly)
      {z : Handler} (hz : d.Leads z) (hu : (d.work z).Unfailing) (hy : y ∈ (d.work z).handlers) :
      (d.work z).Expects N k last x ∨ (d.work z).Keeps N k last := by
    obtain ⟨es, hok⟩ := hu.work
    rcases hi with hx | hh
    · by_cases hself : z.id = x.id
      · obtain rfl := ho.eq_of_id hz.mem hx.mem hself
        exact .inr (hx.keeps hs ho hz hok)
      · exact .inl (hx.work hs ho hz hself hok)
    · exact .inr (hh.work ho hz (queued_of_mem_work hy hp).1 hid hlock)
  have hstep := step_happens ho e
  generalize d.step e = d' at hstep hu hy ⊢
  cases hstep with
  | save uri => exact hi.imp (fun hx => { hx with }) fun hh => { hh with }
  | @refuse n err _ hk =>
    have hfault := hu (d.arrived, some (.uri err)) (by simp [refuse])
    cases hfault
  | wait _ hm => exact hjoin hm (hn _ rfl)
  | begin _ hm hz => exact hwork (hjoin hm (hn _ rfl)) (hs.join hm) (ho.join _ _) hz hu hy
  | idle hid => exact hi
  | resume hz => exact hwork hi hs ho hz hu hy
  | shutdown => exact absurd rfl he

theorem expects_or_keeps_run (hi : d.Expects N k last x ∨ d.Keeps N k last) (hs : d.Sound)
    (ho : d.Orderly) (hlast : last < d.arrived) {events : List Event}
    (he : ∀ e ∈ events, e ≠ .shutdown) (hn : ∀ n ∈ arrivals events, n.closes k = true → n.About N)
    (hu : (d.run events).Unfailing) (hy : y ∈ (d.run events).handlers) (hp : y.progress = .queued)
    (hid : y.id = last) (hlock : y.ticket.lock = .notebook N) :
    (d.run events).Expects N k last x ∨ (d.run events).Keeps N k last := by
  induction events generalizing d with
  | nil => exact hi
  | cons e events ih =>
    have hlast' : last < (d.step e).arrived := Nat.lt_of_lt_of_le hlast (arrived_step ho e)
    have hy' : y ∈ (d.step e).handlers := queued_of_mem_run (ho.step e) hy hp (hid ▸ hlast')
    have hstep := expects_or_keeps_step hi hs ho hlast (he e (by simp))
      (fun n hen => hn n (mem_arrivals_cons.mpr (.inl hen)))
      (hu.first ho) hy' hp hid hlock
    exact ih hstep (hs.step ho e) (ho.step e) hlast' (fun e' h => he e' (List.mem_cons_of_mem e h))
      (fun n h => hn n (mem_arrivals_cons.mpr (.inr h))) hu hy

theorem route_run (ho : d.Orderly) (events : List Event) :
    (d.run events).hub.route = d.hub.route := by
  refine run_preserves (P := fun h => h.route = d.hub.route) (fun _ _ hs hr => hs.route.trans hr)
    (fun _ _ hr => hr) (fun _ hr => hr) (fun n token h hr => ?_) ho rfl events
  have hregistered :=
    Hub.begin_registers (C := fun _ => True) n token (fun _ _ => trivial) h (.refl h)
  exact hregistered.route.trans hr

end Runs
end Dispatcher

namespace Hub

/-- The edit of an open document is applied. -/
theorem begin_change_of_open {h : Hub} {change : ContentChange} {k : Key} {d : Document}
    (token : Option Token) (hroute : h.route = .registry) (hk : Uri.key change.uri = .ok k)
    (hd : h.documents.get? k = some d) :
    ∃ g es, (begin (.changeDocument change) token).on h = (g, .ok es) ∧
      g.documents.get? k = some
        { d with text := (Edit.applyAll change.edits d.text).1, version := change.version } := by
  have hafter : (h.documents.update k change.edits change.version).1.get? k = some
      { d with text := (Edit.applyAll change.edits d.text).1, version := change.version } := by
    rw [Registry.get?_update, if_pos rfl, hd]
    rfl
  simp only [begin, Act.on_bind, Act.on_get, hroute, registerChange, updateDocument, Act.keyOf, hk,
    Act.on_lift_ok, hafter]
  exact ⟨_, _, rfl, hafter⟩

end Hub

namespace Dispatcher

/-- An edit that waits behind a notification that is to open its document takes effect when its turn
has come. -/
theorem edit_takes_effect {d₀ : Dispatcher} (hs : d₀.Sound) (ho : d₀.Orderly)
    (hroute : d₀.hub.route = .registry) {change : ContentChange} {k N : Key}
    (hk : Uri.key (Notification.changeDocument change).uri = .ok k)
    (hl : d₀.hub.lockFor k = .notebook N) {x : Handler} (he : d₀.Expects N k d₀.arrived x)
    {after : List Event} (hevents : ∀ e ∈ after, e ≠ .shutdown)
    (hcloses : ∀ m ∈ arrivals after, m.closes k = true → m.About N) {d : Dispatcher}
    (hd : d = (d₀.join (.changeDocument change) k).run after) (hu : d.Unfailing)
    (hcalls : d.Calls d₀.arrived) :
    ∃ document, d.hub.documents.get? k = some document ∧
      (d.step (.resume d₀.arrived)).hub.documents.get? k = some { document with
        text := (Edit.applyAll change.edits document.text).1, version := change.version } := by
  subst hd
  have ho₁ := ho.join (.changeDocument change) k
  have hod := ho₁.run after
  obtain ⟨y, hlead, hid, hq⟩ := hcalls.leads hod
  -- a handler with its number that still waits is the edit's
  have hy : y = d₀.newcomer (.changeDocument change) k := by
    have hmem := queued_of_mem_run ho₁ hlead.mem hq (by rw [hid]; exact Nat.lt_succ_self _)
    exact ho₁.eq_of_id hmem (List.mem_append_right _ (by simp)) hid
  subst hy
  have hbehind : (d₀.newcomer (.changeDocument change) k).ticket.lock = .notebook N := hl
  have hstart := he.join ho hk (fun h => by cases h) (Nat.le_refl _) fun _ => rfl
  have hnow := expects_or_keeps_run (.inl hstart) (hs.join hk) ho₁ (Nat.lt_succ_self _)
    hevents hcloses hu
    hlead.mem hq rfl hbehind
  rcases hnow with hwaits | hkept
  · have hle := Leads.le hod hlead hwaits.mem
      ((hs.lock_of_about he.mem he.about).trans hbehind.symm)
    exact absurd (ho.arrived x he.mem) (Nat.not_lt.mpr hle)
  · obtain ⟨document, hopen⟩ := Option.isSome_iff_exists.mp hkept.isOpen
    have hroute' := (route_run ho₁ after).trans hroute
    obtain ⟨passes, hhub⟩ := work_hub ((d₀.join (.changeDocument change) k).run after)
      (d₀.newcomer (.changeDocument change) k)
    obtain ⟨g, es, hrun, hafter⟩ := Hub.begin_change_of_open
      (d₀.newcomer (.changeDocument change) k).ticket.token hroute' hk hopen
    refine ⟨document, hopen, ?_⟩
    rw [← hid, step_resume hod hlead, hhub]
    dsimp only [Hub.work, newcomer] at hrun ⊢
    rw [hrun]
    exact (g.proceed_speaks es).documents ▸ hafter

/-- What is said of a document alone does not begin before a notification of a notebook that has not
begun, if the notebook is open and has the document in the index as it arrives; if not, it may begin
before. In the first case an edit takes effect, if that notification opens the document and nothing
else closes it meanwhile. -/
theorem waits_just_when_indexed {settings : Settings} {route : Route} {roster : Roster}
    {before : List Event} {d₀ : Dispatcher} (h₀ : d₀ = (fresh settings route roster).run before)
    {n : Notification} (hn : n.isNotebook = false) {k : Key} (hk : Uri.key n.uri = .ok k) {N : Key}
    {x : Handler} (hx : x ∈ d₀.handlers) (habout : x.notification.About N) :
    ((∀ after, ((d₀.step (.arrive n)).run after).Queues x.id →
        ((d₀.step (.arrive n)).run after).Queues d₀.arrived) ↔
      (x.progress = .queued →
        d₀.hub.store.owners.get? k = some N ∧ (d₀.hub.store.get? N).isSome = true)) ∧
    (d₀.hub.store.owners.get? k = some N ∧ (d₀.hub.store.get? N).isSome = true →
      d₀.Expects N k d₀.arrived x → route = .registry → ∀ change, n = .changeDocument change →
      ∀ after d, d = (d₀.step (.arrive n)).run after → (∀ e ∈ after, e ≠ .shutdown) →
        (∀ m ∈ arrivals after, m.closes k = true → m.About N) → d.Unfailing → d.Calls d₀.arrived →
        ∃ document, d.hub.documents.get? k = some document ∧
          (d.step (.resume d₀.arrived)).hub.documents.get? k = some { document with
            text := (Edit.applyAll change.edits document.text).1, version := change.version }) := by
  have ho : d₀.Orderly := by
    rw [h₀]
    exact (orderly_fresh settings route roster).run before
  have hs : d₀.Sound := by
    rw [h₀]
    exact (sound_fresh settings route roster).run (orderly_fresh settings route roster) before
  have hlock : x.ticket.lock = .notebook N := hs.lock_of_about hx habout
  have ho₁ := ho.step (.arrive n)
  have hless : x.id < (d₀.step (.arrive n)).arrived :=
    Nat.lt_of_lt_of_le (ho.arrived x hx) (arrived_step ho _)
  -- a handler with its number that waits later is the same one, which waited all along
  have hsame {after : List Event} (hwaits : ((d₀.step (.arrive n)).run after).Queues x.id) :
      x ∈ ((d₀.step (.arrive n)).run after).handlers ∧ x.progress = .queued := by
    obtain ⟨z, hz, hid, hp⟩ := hwaits
    have hz₁ := queued_of_mem_run ho₁ hz hp (hid ▸ hless)
    have hz₀ := (queued_of_mem_step ho hz₁ hp).resolve_right fun he =>
      absurd (ho.arrived x hx) (by omega)
    obtain rfl := ho.eq_of_id hz₀ hx hid
    exact ⟨hz, hp⟩
  refine ⟨⟨fun hwait hq => ?_, fun hindexed after hwaits => ?_⟩, ?_⟩
  · rw [← Hub.lockFor_eq_notebook]
    by_contra hl
    obtain ⟨after, hmem, hbegun⟩ := overtakes_of_lock ho hk hn hx hlock hl
    exact hbegun (hwait after ⟨x, hmem, rfl, hq⟩)
  · obtain ⟨hmem, hq⟩ := hsame hwaits
    have hl := Hub.lockFor_eq_notebook.mpr (hindexed hq)
    exact ⟨_, waits_of_lock ho hk hn hx hq hlock hl hmem, rfl, rfl⟩
  · rintro hindexed hexpects rfl change rfl after d rfl hevents hcloses hu hcalls
    have hl := Hub.lockFor_eq_notebook.mpr hindexed
    have hroute : d₀.hub.route = .registry := by
      rw [h₀]
      exact route_run (orderly_fresh settings .registry roster) before
    have hjoined : d₀.step (.arrive (.changeDocument change)) =
        d₀.join (.changeDocument change) k :=
      step_arrive_behind ho hk hn hx hlock hl
    exact edit_takes_effect hs ho hroute hk hl hexpects hevents hcloses (by rw [hjoined]) hu hcalls

/-- A notebook is opened with one cell; while that is at a lookup, it gets a second cell, and the
first is opened anew. -/
def secondCellWaits : Dispatcher :=
  (fresh {} .registry (.start true)).run
    [.arrive (.openNotebook ⟨"nb:1", "t", 1, none, [⟨.code, "c:a", none, none⟩]⟩
      [⟨"c:a", .unnamed, 1, "a"⟩]),
      .arrive (.changeNotebook "nb:1" 2 ⟨none, some ⟨1, 0, [⟨.code, "c:b", none, none⟩],
        [⟨"c:a", .unnamed, 2, "a"⟩, ⟨"c:b", .unnamed, 1, "b"⟩], []⟩, none, none⟩)]

def replaced (uri : String) : ContentChange := ⟨uri, 3, [.whole "x"]⟩

/-- The edit of the second cell may get ahead of the change that opens it, and then has no effect;
that of the first one waits, and has. -/
theorem waits_just_when_indexed_secondCellWaits :
    (¬ ∀ after,
    ((secondCellWaits.step (.arrive (.changeDocument (replaced "c:b")))).run after).Queues 1 →
        ((secondCellWaits.step (.arrive (.changeDocument (replaced "c:b")))).run after).Queues 2) ∧
      (((secondCellWaits.step (.arrive (.changeDocument (replaced "c:b")))).run
        [.resume 0, .resume 1]).hub.documents.get? ⟨"c:b"⟩).map Document.text = some "b" ∧
      ∃ document :
        Document, (((secondCellWaits.step (.arrive (.changeDocument (replaced "c:a")))).run
          (.resume 0 :: List.replicate 5 (.resume 1))).step (.resume 2)).hub.documents.get?
          ⟨"c:a"⟩ =
        some { document with text := "x", version := 3 } := by
  have hrun : secondCellWaits = (fresh {} .registry (.start true)).run _ := rfl
  have hwaits : ∃ x ∈ secondCellWaits.handlers, x.id = 1 ∧ x.progress = .queued ∧
      x.notification.isNotebook = true ∧ Uri.key x.notification.uri = .ok ⟨"nb:1"⟩ ∧
      x.notification.opens ⟨"c:a"⟩ = true ∧ x.notification.closes ⟨"c:a"⟩ = false := by
        decide +kernel
  obtain ⟨x, hx, hid, hq, hnotebook, hkey, hopens, hcloses⟩ := hwaits
  have hnone : ∀ y ∈ secondCellWaits.handlers, y.notification.isClose = false ∧
      y.notification.closes ⟨"c:a"⟩ = false := by decide +kernel
  have hindexed : secondCellWaits.hub.store.owners.get? ⟨"c:a"⟩ = some ⟨"nb:1"⟩ ∧
      (secondCellWaits.hub.store.get? ⟨"nb:1"⟩).isSome = true ∧
      secondCellWaits.hub.store.owners.get? ⟨"c:b"⟩ = none ∧ secondCellWaits.arrived = 2 := by
        decide +kernel
  refine ⟨?_, by decide +kernel, ?_⟩
  · have hiff :=
      (waits_just_when_indexed hrun (n := .changeDocument (replaced "c:b")) rfl (k := ⟨"c:b"⟩)
      (by decide +kernel) hx ⟨hnotebook, hkey⟩).1
    rw [hid, hindexed.2.2.2] at hiff
    rw [hiff]
    intro hall
    have howner := (hall hq).1
    rw [hindexed.2.2.1] at howner
    cases howner
  · have hexpects : secondCellWaits.Expects ⟨"nb:1"⟩ ⟨"c:a"⟩ secondCellWaits.arrived x :=
      { mem := hx, queued := hq, about := ⟨hnotebook, hkey⟩, opens := hopens, spares := hcloses,
        stands := .inr ⟨hindexed.2.1, fun y hy _ _ hc => by simp [(hnone y hy).1] at hc⟩,
        closers := fun y hy _ hc => by simp [(hnone y hy).2] at hc }
    obtain ⟨document, _, hafter⟩ :=
      (waits_just_when_indexed hrun (n := .changeDocument (replaced "c:a")) rfl
      (k := ⟨"c:a"⟩) (by decide +kernel) hx ⟨hnotebook, hkey⟩).2
      ⟨hindexed.1, hindexed.2.1⟩ hexpects rfl (replaced "c:a") rfl
      (.resume 0 :: List.replicate 5 (.resume 1)) _ rfl (by simp) (by simp [arrivals]) (by
        unfold Unfailing
        decide +kernel) (by rw [hindexed.2.2.2]; decide +kernel)
    rw [hindexed.2.2.2] at hafter
    exact ⟨document, hafter⟩

end Dispatcher
end NotebookHub
