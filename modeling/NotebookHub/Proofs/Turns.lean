import NotebookHub.Hub.Dispatch
import NotebookHub.Proofs.Delivering
import NotebookHub.Proofs.Locks
import NotebookHub.Proofs.Tickets

namespace NotebookHub

namespace Hub

def work (h : Hub) (x : Handler) : Hub × Except Fault (List Errand) :=
  match x.progress with
  | .queued =>
    match (begin x.notification x.ticket.token).on h with
    | (g, .error e) => (g, .error e)
    | (g, .ok es) => ((g.proceed es).1, .ok (g.proceed es).2)
  | .delivering es => ((h.resume es).1, .ok (h.resume es).2)

end Hub

namespace Dispatcher

def lineAt (d : Dispatcher) (k : LockKey) : List Handler := d.handlers.filter (·.ticket.lock = k)

/-- Lines are in order of arrival, and nobody begins before its turn. -/
structure Orderly (d : Dispatcher) : Prop where
  ids : d.handlers.Pairwise (·.id < ·.id)
  arrived : ∀ x ∈ d.handlers, x.id < d.arrived
  locks : d.locks.Sound
  queue : ∀ k, d.locks.queue k = (d.lineAt k).map Handler.id
  waiting : ∀ k, ∀ x ∈ (d.lineAt k).tail, x.progress = .queued
  atLookup : ∀ x ∈ d.handlers, ∀ es, x.progress = .delivering es →
    ∃ e rest, es = e :: rest ∧ 0 < e.lookups

def Leads (d : Dispatcher) (x : Handler) : Prop := (d.lineAt x.ticket.lock).head? = some x

def newcomer (d : Dispatcher) (n : Notification) (k : Key) : Handler :=
  ⟨d.arrived, n, d.hub.ticket n k, .queued⟩

def join (d : Dispatcher) (n : Notification) (k : Key) : Dispatcher :=
  { d with
    hub := { d.hub with passes := d.hub.passesAt n k }
    locks := d.locks.acquire (d.hub.ticket n k).lock d.arrived
    handlers := d.handlers ++ [d.newcomer n k]
    arrived := d.arrived + 1 }

def refuse (d : Dispatcher) (e : Uri.Error) : Dispatcher :=
  { d with arrived := d.arrived + 1, ended := d.ended ++ [(d.arrived, some (.uri e))] }

def work (d : Dispatcher) (x : Handler) : Dispatcher :=
  match d.hub.work x with
  | (hub, .error e) => { d with hub }.conclude x (some e)
  | (hub, .ok es) => { d with hub }.settle x es

/-- What a step comes to. -/
inductive Happens (d : Dispatcher) : Event → Dispatcher → Prop
  | save (uri : String) :
    Happens d (.arrive (.saveNotebook uri)) { d with hub := d.hub.note (.saveNotebook uri) }
  | refuse {n : Notification} {e : Uri.Error} (hn : ∀ uri, n ≠ .saveNotebook uri)
      (hk : Uri.key n.uri = .error e) : Happens d (.arrive n) (d.refuse e)
  | wait {n : Notification} {k : Key} (hn : ∀ uri, n ≠ .saveNotebook uri)
      (hk : Uri.key n.uri = .ok k) : Happens d (.arrive n) (d.join n k)
  | begin {n : Notification} {k : Key} (hn : ∀ uri, n ≠ .saveNotebook uri)
      (hk : Uri.key n.uri = .ok k) (hx : (d.join n k).Leads (d.newcomer n k)) :
      Happens d (.arrive n) ((d.join n k).work (d.newcomer n k))
  | idle {id : Nat} (hid : ∀ x ∈ d.handlers, x.id = id → x.progress = .queued ∧ ¬ d.Leads x) :
      Happens d (.resume id) d
  | resume {x : Handler} (hx : d.Leads x) : Happens d (.resume x.id) (d.work x)
  | shutdown : Happens d .shutdown { d with hub := d.hub.shutdown }

theorem Leads.mem {d : Dispatcher} {x : Handler} (hx : d.Leads x) : x ∈ d.handlers := by
  have hm := List.mem_of_head? hx
  exact (List.mem_filter.mp hm).1

theorem mem_lineAt {d : Dispatcher} {x : Handler} {k : LockKey} :
    x ∈ d.lineAt k ↔ x ∈ d.handlers ∧ x.ticket.lock = k := by
  simp [lineAt]

namespace Orderly

variable {d : Dispatcher} {x y : Handler}

theorem eq_of_id (ho : d.Orderly) (hx : x ∈ d.handlers) (hy : y ∈ d.handlers) (h : x.id = y.id) :
    x = y := by
  have hids := ho.ids
  revert hids hx hy
  generalize d.handlers = xs
  intro hx hy hids
  induction xs with
  | nil => simp at hx
  | cons z xs ih =>
    obtain ⟨hz, hrest⟩ := List.pairwise_cons.mp hids
    rcases List.mem_cons.mp hx with rfl | hx' <;> rcases List.mem_cons.mp hy with rfl | hy'
    · rfl
    · have hless := hz y hy'
      omega
    · have hless := hz x hx'
      omega
    · exact ih hx' hy' hrest

theorem handler?_eq (ho : d.Orderly) (hx : x ∈ d.handlers) : d.handler? x.id = some x := by
  unfold handler?
  cases hf : d.handlers.find? (·.id = x.id) with
  | none =>
    have hne := List.find?_eq_none.mp hf x hx
    simp at hne
  | some y =>
    have hid : y.id = x.id := by simpa using List.find?_some hf
    rw [ho.eq_of_id (List.mem_of_find?_eq_some hf) hx hid]

/-- Who holds the lock is the first of the line. -/
theorem leads_of_holder (ho : d.Orderly) (hx : x ∈ d.handlers)
    (hh : d.locks.holder? x.ticket.lock = some x.id) : d.Leads x := by
  rw [KeyedLock.holder?, ho.queue, List.head?_map] at hh
  obtain ⟨y, hy, hid⟩ := Option.map_eq_some_iff.mp hh
  have hm := mem_lineAt.mp (List.mem_of_head? hy)
  rwa [ho.eq_of_id hm.1 hx hid] at hy

theorem holder_of_leads (ho : d.Orderly) (hx : d.Leads x) :
    d.locks.holder? x.ticket.lock = some x.id := by
  rw [KeyedLock.holder?, ho.queue, List.head?_map, hx]
  rfl

/-- Who has begun is the first of its line. -/
theorem leads_of_begun (ho : d.Orderly) (hx : x ∈ d.handlers) (hp : x.progress ≠ .queued) :
    d.Leads x := by
  have hm : x ∈ d.lineAt x.ticket.lock := mem_lineAt.mpr ⟨hx, rfl⟩
  have hw := ho.waiting x.ticket.lock
  unfold Leads
  cases hl : d.lineAt x.ticket.lock with
  | nil => simp [hl] at hm
  | cons y ys =>
    rw [hl] at hm hw
    rcases List.mem_cons.mp hm with rfl | hm
    · rfl
    · exact absurd (hw x hm) hp

/-- One line has one first. -/
theorem eq_of_leads (hx : d.Leads x) (hy : d.Leads y)
    (h : x.ticket.lock = y.ticket.lock) : x = y := by
  unfold Leads at hx hy
  rw [h, hy] at hx
  exact (Option.some.inj hx).symm

end Orderly

theorem lineAt_join (d : Dispatcher) (n : Notification) (k : Key) (l : LockKey) :
    (d.join n k).lineAt l =
      if (d.hub.ticket n k).lock = l then d.lineAt l ++ [d.newcomer n k] else d.lineAt l := by
  simp only [join, lineAt, List.filter_append]
  split
  · rename_i hl
    simp [newcomer, hl]
  · rename_i hl
    simp [newcomer, hl]

/-- The others of a line when its first has left. -/
theorem lineAt_conclude {d : Dispatcher} (ho : d.Orderly) {x : Handler} (hx : d.Leads x)
    (hub : Hub) (fault : Option Fault) (l : LockKey) :
    ({ d with hub }.conclude x fault).lineAt l =
      if x.ticket.lock = l then (d.lineAt l).tail else d.lineAt l := by
  have hfilter : ({ d with hub }.conclude x fault).lineAt l =
      (d.lineAt l).filter (·.id ≠ x.id) := by
    simp only [conclude, lineAt, List.filter_filter]
    congr 1
    funext y
    rw [Bool.and_comm]
  rw [hfilter]
  have hother : ∀ y ∈ d.handlers, y ≠ x → y.id ≠ x.id :=
    fun y hy hne hid => hne (ho.eq_of_id hy hx.mem hid)
  split
  · rename_i hl
    subst hl
    have hids : (d.lineAt x.ticket.lock).Pairwise (·.id < ·.id) := ho.ids.filter _
    have hlead : (d.lineAt x.ticket.lock).head? = some x := hx
    cases hline : d.lineAt x.ticket.lock with
    | nil => simp [hline] at hlead
    | cons y ys =>
      rw [hline] at hlead hids
      obtain rfl := Option.some.inj hlead
      rw [List.filter_cons_of_neg (by simp), List.tail_cons, List.filter_eq_self]
      intro z hz
      have hless := (List.pairwise_cons.mp hids).1 z hz
      simpa using Nat.ne_of_gt hless
  · rename_i hl
    rw [List.filter_eq_self]
    intro y hy
    obtain ⟨hy, hlock⟩ := mem_lineAt.mp hy
    simpa using hother y hy fun he => hl (he ▸ hlock)

def leave (d : Dispatcher) (hub : Hub) (x : Handler) (es : List Errand) : Dispatcher :=
  { d with
    hub
    handlers := d.handlers.map fun y =>
      if y.id = x.id then { y with progress := .delivering es } else y }

theorem lineAt_leave {d : Dispatcher} (ho : d.Orderly) {x : Handler} (hx : d.Leads x) (hub : Hub)
    (es : List Errand) (l : LockKey) :
    (d.leave hub x es).lineAt l =
      if x.ticket.lock = l then { x with progress := .delivering es } :: (d.lineAt l).tail
      else d.lineAt l := by
  let f : Handler → Handler :=
    fun y => if y.id = x.id then { y with progress := .delivering es } else y
  have hlock (y : Handler) : (f y).ticket = y.ticket := by
    unfold f
    split <;> rfl
  have hmap : (d.leave hub x es).lineAt l = (d.lineAt l).map f := by
    simp only [leave, lineAt, List.filter_map]
    congr 2
    funext y
    exact congrArg (fun t : Ticket => decide (t.lock = l)) (hlock y)
  have hsame : ∀ y, y.id ≠ x.id → f y = y := fun y hy => by simp [f, hy]
  rw [hmap]
  split
  · rename_i hl
    subst hl
    have hids : (d.lineAt x.ticket.lock).Pairwise (·.id < ·.id) := ho.ids.filter _
    have hlead : (d.lineAt x.ticket.lock).head? = some x := hx
    cases hline : d.lineAt x.ticket.lock with
    | nil => simp [hline] at hlead
    | cons y ys =>
      rw [hline] at hlead hids
      obtain rfl := Option.some.inj hlead
      have hrest : ys.map f = ys := by
        conv => rhs; rw [← List.map_id ys]
        refine List.map_congr_left fun z hz => hsame z ?_
        exact Nat.ne_of_gt ((List.pairwise_cons.mp hids).1 z hz)
      simp [hrest, f]
  · rename_i hl
    conv => rhs; rw [← List.map_id (d.lineAt l)]
    refine List.map_congr_left fun y hy => hsame y fun hid => ?_
    obtain ⟨hy, hly⟩ := mem_lineAt.mp hy
    rw [ho.eq_of_id hy hx.mem hid] at hly
    exact hl hly

/-- A handler that works ends, or stays at its next lookup. -/
theorem work_cases (d : Dispatcher) (x : Handler) :
    (∃ fault, d.work x = { d with hub := (d.hub.work x).1 }.conclude x fault ∧
      (d.hub.work x).2 = match fault with
        | some e => .error e
        | none => .ok []) ∨
      ∃ e es, d.work x = d.leave (d.hub.work x).1 x (e :: es) ∧
        (d.hub.work x).2 = .ok (e :: es) := by
  unfold work
  rcases d.hub.work x with ⟨hub, fault | es⟩
  · exact .inl ⟨some fault, rfl, rfl⟩
  · cases es with
    | nil => exact .inl ⟨none, rfl, rfl⟩
    | cons e es => exact .inr ⟨e, es, rfl, rfl⟩

namespace Orderly

variable {d : Dispatcher} {x : Handler}

theorem join (ho : d.Orderly) (n : Notification) (k : Key) : (d.join n k).Orderly where
  ids := by
    refine List.pairwise_append.mpr ⟨ho.ids, List.pairwise_singleton .., ?_⟩
    intro y hy z hz
    obtain rfl := List.mem_singleton.mp hz
    exact ho.arrived y hy
  arrived := by
    intro y hy
    rcases List.mem_append.mp hy with hy | hy
    · exact Nat.lt_succ_of_lt (ho.arrived y hy)
    · obtain rfl := List.mem_singleton.mp hy
      exact Nat.lt_succ_self d.arrived
  locks := ho.locks.acquire _ _
  queue l := by
    rw [lineAt_join]
    simp only [Dispatcher.join, KeyedLock.queue_acquire ho.locks, ho.queue]
    split <;> simp [newcomer]
  waiting l y hy := by
    rw [lineAt_join] at hy
    split at hy
    · have hmem : y ∈ (d.lineAt l).tail ∨ y = d.newcomer n k := by
        cases hline : d.lineAt l with
        | nil => simp [hline] at hy
        | cons z zs => simpa [hline] using hy
      rcases hmem with hy | rfl
      · exact ho.waiting l y hy
      · rfl
    · exact ho.waiting l y hy
  atLookup y hy es hp := by
    rcases List.mem_append.mp hy with hy | hy
    · exact ho.atLookup y hy es hp
    · obtain rfl := List.mem_singleton.mp hy
      cases hp

theorem conclude (ho : d.Orderly) (hx : d.Leads x) (hub : Hub) (fault : Option Fault) :
    ({ d with hub }.conclude x fault).Orderly where
  ids := ho.ids.filter _
  arrived y hy := ho.arrived y (List.mem_filter.mp hy).1
  locks := ho.locks.handOver _
  queue l := by
    rw [lineAt_conclude ho hx]
    simp only [Dispatcher.conclude, KeyedLock.queue_handOver ho.locks, ho.queue]
    split <;> simp
  waiting l y hy := by
    rw [lineAt_conclude ho hx] at hy
    split at hy
    · exact ho.waiting l y (List.mem_of_mem_tail hy)
    · exact ho.waiting l y hy
  atLookup y hy := ho.atLookup y (List.mem_filter.mp hy).1

theorem leave (ho : d.Orderly) (hx : d.Leads x) (hub : Hub) {es : List Errand}
    (hes : ∃ e rest, es = e :: rest ∧ 0 < e.lookups) : (d.leave hub x es).Orderly where
  ids := by
    refine List.pairwise_map.mpr (ho.ids.imp fun h => ?_)
    split <;> split <;> exact h
  arrived y hy := by
    obtain ⟨z, hz, rfl⟩ := List.mem_map.mp hy
    split <;> exact ho.arrived z hz
  locks := ho.locks
  queue l := by
    rw [lineAt_leave ho hx]
    simp only [Dispatcher.leave, ho.queue]
    split
    · rename_i hl
      subst hl
      have hlead : (d.lineAt x.ticket.lock).head? = some x := hx
      cases hline : d.lineAt x.ticket.lock with
      | nil => simp [hline] at hlead
      | cons y ys =>
        rw [hline] at hlead
        obtain rfl := Option.some.inj hlead
        rfl
    · rfl
  waiting l y hy := by
    rw [lineAt_leave ho hx] at hy
    split at hy
    · exact ho.waiting l y hy
    · exact ho.waiting l y hy
  atLookup y hy fs hp := by
    obtain ⟨z, hz, rfl⟩ := List.mem_map.mp hy
    split at hp
    · cases hp
      exact hes
    · exact ho.atLookup z hz fs hp

theorem work (ho : d.Orderly) (hx : d.Leads x) : (d.work x).Orderly := by
  rcases work_cases d x with ⟨fault, he, _⟩ | ⟨e, es, he, hr⟩
  · rw [he]
    exact ho.conclude hx _ fault
  · rw [he]
    refine ho.leave hx _ ⟨e, es, rfl, ?_⟩
    unfold Hub.work at hr
    split at hr
    · split at hr
      · cases hr
      · exact (Hub.proceed_spec _ _).2.2 e es (Except.ok.inj hr)
    · rename_i fs _
      cases fs with
      | nil => cases hr
      | cons f fs => exact (Hub.proceed_spec _ _).2.2 e es (Except.ok.inj hr)

end Orderly

theorem beginHandler_eq {d : Dispatcher} {x : Handler} (hx : x.progress = .queued) :
    d.beginHandler x = d.work x := by
  unfold beginHandler work Hub.work
  simp only [hx]
  rcases (Hub.begin x.notification x.ticket.token).on d.hub with ⟨hub, fault | es⟩ <;> rfl

theorem advance_happens {d : Dispatcher} (ho : d.Orderly) (id : Nat) :
    Happens d (.resume id) (d.advance id) := by
  unfold advance
  cases hf : d.handler? id with
  | none =>
    apply Happens.idle
    intro x hx hid
    have hne := List.find?_eq_none.mp hf x hx
    simp [hid] at hne
  | some x =>
    have hx : x ∈ d.handlers := List.mem_of_find?_eq_some hf
    obtain rfl : x.id = id := by simpa using List.find?_some hf
    cases hp : x.progress with
    | queued =>
      simp only [hp]
      split
      · rename_i hr
        rw [beginHandler_eq hp]
        refine .resume (ho.leads_of_holder hx ?_)
        simpa [isReady, hp] using hr
      · rename_i hr
        apply Happens.idle
        intro y hy hid
        obtain rfl := ho.eq_of_id hy hx hid
        refine ⟨hp, fun hl => hr ?_⟩
        simp [isReady, hp, ho.holder_of_leads hl]
    | delivering es =>
      have hw : d.work x = { d with hub := (d.hub.resume es).1 }.settle x (d.hub.resume es).2 := by
        unfold work Hub.work
        simp only [hp]
      simp only [hp]
      rw [← hw]
      exact .resume (ho.leads_of_begun hx (by simp [hp]))

theorem step_happens {d : Dispatcher} (ho : d.Orderly) (e : Event) : Happens d e (d.step e) := by
  cases e with
  | resume id => exact advance_happens ho id
  | shutdown => exact .shutdown
  | arrive n =>
    by_cases hs : ∃ uri, n = .saveNotebook uri
    · obtain ⟨uri, rfl⟩ := hs
      exact .save uri
    · have hn : ∀ uri, n ≠ .saveNotebook uri := fun uri he => hs ⟨uri, he⟩
      have harrive : d.step (.arrive n) = d.startHandler n := by
        simp only [step, arrive]
      rw [harrive]
      unfold startHandler
      cases hk : Uri.key n.uri with
      | error err =>
        simp only [Hub.takeTicket_on_error hk]
        exact .refuse hn hk
      | ok k =>
        simp only [Hub.takeTicket_on hk]
        have hj := ho.join n k
        have hmem : d.newcomer n k ∈ (d.join n k).handlers := by simp [join]
        split
        · rename_i hr
          have hl := hj.leads_of_holder hmem (by simpa [isReady, newcomer, join] using hr)
          have hb := Happens.begin hn hk hl
          rwa [← beginHandler_eq rfl] at hb
        · exact .wait hn hk

theorem Orderly.step {d : Dispatcher} (ho : d.Orderly) (e : Event) : (d.step e).Orderly := by
  have hstep := step_happens ho e
  generalize d.step e = d' at hstep ⊢
  cases hstep with
  | save uri => exact { ho with }
  | refuse hn hk =>
    exact { ho with arrived := fun x hx => Nat.lt_succ_of_lt (ho.arrived x hx) }
  | wait hn hk => exact ho.join _ _
  | begin hn hk hx => exact (ho.join _ _).work hx
  | idle hid => exact ho
  | resume hx => exact ho.work hx
  | shutdown => exact { ho with }

def start (hub : Hub) : Dispatcher := { hub }

theorem orderly_start (hub : Hub) : (start hub).Orderly where
  ids := by simp [start]
  arrived := by simp [start]
  locks := KeyedLock.sound_empty
  queue k := by simp [start, KeyedLock.queue, lineAt]
  waiting := by simp [start, lineAt]
  atLookup := by simp [start]

theorem run_append (d : Dispatcher) (es fs : List Event) : d.run (es ++ fs) = (d.run es).run fs :=
  List.foldl_append

theorem Orderly.run {d : Dispatcher} (ho : d.Orderly) (events : List Event) :
    (d.run events).Orderly := by
  induction events generalizing d with
  | nil => exact ho
  | cons e events ih => exact ih (ho.step e)

end Dispatcher
end NotebookHub
