import NotebookHub.Proofs.Passes
import NotebookHub.Proofs.Replays

namespace NotebookHub

def arrivals (events : List Event) : List Notification :=
  events.filterMap fun
    | .arrive n => some n
    | _ => none

theorem arrivals_cons (e : Event) (events : List Event) :
    arrivals (e :: events) = arrivals [e] ++ arrivals events :=
  List.filterMap_append (l := [e])

theorem mem_arrivals_cons {n : Notification} {e : Event} {events : List Event} :
    n ∈ arrivals (e :: events) ↔ e = .arrive n ∨ n ∈ arrivals events := by
  rw [arrivals_cons, List.mem_append]
  cases e <;> simp [arrivals, eq_comm]

def Event.isOfNotebooks : Event → Bool
  | .arrive n => n.isNotebook
  | .resume _ => true
  | .shutdown => false

def Handler.owed (x : Handler) : List Errand :=
  match x.progress with
  | .queued => []
  | .delivering es => es

/-- A handler works on notebook `N`, under its lock, and owes notices of documents that it
touches. -/
structure Handler.Serves (T : Key → Key → Prop) (N : Key) (x : Handler) : Prop where
  worksOn : x.notification.worksOn N = true
  lock : x.ticket.lock = .notebook N
  token : x.ticket.token.isSome = x.notification.restarts
  within : x.notification.Within T
  notices : ∀ n ∈ noticesOf x.owed, x.notification.Touches n.document.key

namespace Hub

/-- Passes that end leave the notices as they are. -/
theorem noticesOf_proceed (h : Hub) (es : List Errand) :
    noticesOf (h.proceed es).2 = noticesOf es := by
  fun_induction proceed h es with
  | case1 => rfl
  | case2 h es notebook token total ih =>
    rw [ih, noticesOf, noticesOf, List.filterMap_cons_none rfl]
  | case3 => rfl

/-- A lookup is for the first errand; the notices behind it are left. -/
theorem noticesOf_resume (h : Hub) (es : List Errand) :
    noticesOf (h.resume es).2 = noticesOf es.tail := by
  cases es with
  | nil => rfl
  | cons e es =>
    have hleft : noticesOf (h.perform e).2.toList = [] := by
      cases e with
      | notice n => rfl
      | publish p =>
        obtain ⟨notebook, token, links, total⟩ := p
        cases links with
        | nil => rfl
        | cons l links =>
          simp only [perform]
          split <;> rfl
    have hproceed := (h.perform e).1.noticesOf_proceed ((h.perform e).2.toList ++ es)
    rw [noticesOf_append, hleft, List.nil_append] at hproceed
    exact hproceed

/-- A lookup of a handler that owes notices of other documents. -/
theorem resume_elsewhere {N : Key} {T : Key → Prop} (h : Hub) {es : List Errand}
    (hT : ∀ n ∈ noticesOf es, ¬ T n.document.key) : Agree N T h (h.resume es).1 := by
  cases es with
  | nil => exact .refl h
  | cons e es =>
    have hperform : Agree N T h (h.perform e).1 := by
      cases e with
      | notice n => exact .deliver_other h (hT n (by simp [noticesOf, Errand.notice?]))
      | publish p =>
        obtain ⟨notebook, token, links, total⟩ := p
        cases links with
        | nil => exact .refl h
        | cons l links =>
          simp only [perform]
          split
          · exact .tellOwners_other h (.inr rfl)
          · exact .withJournal _
    obtain ⟨journal, he⟩ := (h.perform e).1.proceed_eq ((h.perform e).2.toList ++ es)
    have hresume : (h.resume (e :: es)).1 = { (h.perform e).1 with journal } := he
    rw [hresume]
    exact hperform.trans (.withJournal _)

/-- What is left after a lookup does what was left before it. -/
theorem foldl_resume (h : Hub) {e : Errand} {es : List Errand} (he : 0 < e.lookups) :
    (h.resume (e :: es)).2.foldl carryOut (h.resume (e :: es)).1 = (e :: es).foldl carryOut h := by
  have hproceed := ((h.perform e).1.proceed_spec ((h.perform e).2.toList ++ es)).1
  rw [List.foldl_append, foldl_perform h e he] at hproceed
  exact hproceed

end Hub

namespace Dispatcher

def owedFor (d : Dispatcher) (N : Key) : List Errand :=
  (d.lineAt (.notebook N)).flatMap Handler.owed

def waitingFor (d : Dispatcher) (N : Key) : List Notification :=
  ((d.lineAt (.notebook N)).filter (·.progress = .queued)).map Handler.notification

/-- Once all that is owed for the notebook is delivered, the hub has it as a hub that handled in
turn all of its notifications that have begun. -/
def Follows (T : Key → Key → Prop) (h₀ : Hub) (ns : List Notification) (d : Dispatcher)
    (N : Key) : Prop :=
  ∃ begun h, ns.filter (·.worksOn N) = begun ++ d.waitingFor N ∧ h₀.handleAll begun = .ok h ∧
    Hub.Alike N (T N) ((d.owedFor N).foldl Hub.carryOut d.hub) h

/-- The dispatcher keeps in step with handling in turn, notebook by notebook. -/
structure InStep (T : Key → Key → Prop) (h₀ : Hub) (ns : List Notification)
    (d : Dispatcher) : Prop where
  kinds : ∀ n ∈ ns, (∃ uri, n = .saveNotebook uri) ∨ ∃ N, n.worksOn N = true
  serves : ∀ x ∈ d.handlers, ∃ N, x.Serves T N
  follows : ∀ N, d.Follows T h₀ ns N

section Lines

variable {d : Dispatcher} {x : Handler}

theorem lineAt_of_leads (ho : d.Orderly) (hx : d.Leads x) :
    ∃ rest, d.lineAt x.ticket.lock = x :: rest ∧ ∀ y ∈ rest, y.progress = .queued := by
  have hwait := ho.waiting x.ticket.lock
  have hlead : (d.lineAt x.ticket.lock).head? = some x := hx
  cases hline : d.lineAt x.ticket.lock with
  | nil => simp [hline] at hlead
  | cons y rest =>
    rw [hline] at hlead hwait
    obtain rfl := Option.some.inj hlead
    exact ⟨rest, rfl, hwait⟩

theorem waitingFor_join (d : Dispatcher) (n : Notification) (k N : Key) :
    (d.join n k).waitingFor N =
      if (d.hub.ticket n k).lock = .notebook N then d.waitingFor N ++ [n] else d.waitingFor N := by
  unfold waitingFor
  rw [lineAt_join]
  split
  · simp [newcomer, List.filter_append]
  · rfl

/-- Who gets into another line does not work on the notebook. -/
theorem worksOn_of_lock_ne {n : Notification} {k N : Key} (hk : Uri.key n.uri = .ok k)
    (hlock : (d.hub.ticket n k).lock ≠ .notebook N) : n.worksOn N = false := by
  rw [Bool.eq_false_iff]
  intro hw
  have habout := (Notification.worksOn_iff.mp hw).1
  obtain rfl : k = N := Except.ok.inj (hk.symm.trans habout.2)
  exact hlock (by simp [Hub.ticket, habout.1])

theorem owed_queued {xs : List Handler} (hq : ∀ y ∈ xs, y.progress = .queued) :
    xs.flatMap Handler.owed = [] := by
  rw [List.flatMap_eq_nil_iff]
  intro y hy
  simp [Handler.owed, hq y hy]

/-- What is owed and what waits for a notebook, when one handler is first in its line. -/
theorem standing_of_leads (ho : d.Orderly) (hx : d.Leads x) {N : Key}
    (hl : x.ticket.lock = .notebook N) :
    ∃ rest, d.lineAt (.notebook N) = x :: rest ∧ (∀ y ∈ rest, y.progress = .queued) ∧
      d.owedFor N = x.owed ∧
      d.waitingFor N =
        (if x.progress = .queued then [x.notification] else []) ++
        rest.map Handler.notification := by
  obtain ⟨rest, hline, hq⟩ := lineAt_of_leads ho hx
  rw [hl] at hline
  have hrest : rest.filter (·.progress = .queued) = rest :=
    List.filter_eq_self.mpr fun y hy => by simpa using hq y hy
  refine ⟨rest, hline, hq, by simp [owedFor, hline, owed_queued hq], ?_⟩
  unfold waitingFor
  rw [hline, List.filter_cons]
  split
  · rename_i hp
    rw [if_pos (by simpa using hp), hrest]
    rfl
  · rename_i hp
    rw [if_neg (by simpa using hp), hrest]
    rfl

/-- The line after its first has worked: it owes what it has left, and the others wait. -/
theorem standing_work (ho : d.Orderly) (hx : d.Leads x) {N : Key} (hl : x.ticket.lock = .notebook N)
    {es : List Errand} (hok : (d.hub.work x).2 = .ok es) {rest : List Handler}
    (hline : d.lineAt (.notebook N) = x :: rest) (hq : ∀ y ∈ rest, y.progress = .queued) :
    (d.work x).owedFor N = es ∧ (d.work x).waitingFor N = rest.map Handler.notification := by
  have hrest : rest.filter (·.progress = .queued) = rest :=
    List.filter_eq_self.mpr fun y hy => by simpa using hq y hy
  rcases work_cases d x with ⟨fault, he, hr⟩ | ⟨e, fs, he, hr⟩
  · cases fault with
    | some fault => simp [hok] at hr
    | none =>
      obtain rfl : es = [] := Except.ok.inj (hok.symm.trans hr)
      have hafter := lineAt_conclude ho hx (d.hub.work x).1 none (.notebook N)
      rw [if_pos hl, hline, List.tail_cons] at hafter
      rw [he]
      exact ⟨by simp [owedFor, hafter, owed_queued hq], by simp [waitingFor, hafter, hrest]⟩
  · obtain rfl : es = e :: fs := Except.ok.inj (hok.symm.trans hr)
    have hafter := lineAt_leave ho hx (d.hub.work x).1 (e :: fs) (.notebook N)
    rw [if_pos hl, hline, List.tail_cons] at hafter
    rw [he]
    exact ⟨by simp [owedFor, hafter, owed_queued hq, Handler.owed],
      by simp [waitingFor, hafter, hrest]⟩

/-- Other lines stay as they are. -/
theorem lineAt_work (ho : d.Orderly) (hx : d.Leads x) {l : LockKey} (hl : x.ticket.lock ≠ l) :
    (d.work x).lineAt l = d.lineAt l := by
  rcases work_cases d x with ⟨fault, he, _⟩ | ⟨e, es, he, _⟩
  · rw [he, lineAt_conclude ho hx, if_neg hl]
  · rw [he, lineAt_leave ho hx, if_neg hl]

end Lines

/-- Handlers of other notebooks make no difference. -/
theorem work_elsewhere {T : Key → Key → Prop} {d : Dispatcher} {x : Handler} {M N : Key}
    (hx : x.Serves T M) (hN : N ≠ M) : Hub.Agree N (T N) d.hub (d.work x).hub := by
  have habout := (Notification.worksOn_iff.mp hx.worksOn).1
  have hother : ∀ k, T N k → ¬ x.notification.Touches k := fun k hk ht =>
    hN ((hx.within M habout k ht N).mp hk)
  obtain ⟨passes, hhub⟩ := work_hub d x
  rw [hhub]
  refine Hub.Agree.trans ?_ (.withPasses passes)
  cases hp : x.progress with
  | queued =>
    have hnot : ¬ x.notification.About N := fun he => hN (Except.ok.inj (he.2.symm.trans habout.2))
    exact .of_registers
      (d.hub.work_registers (C := fun _ => True) hp fun _ _ => trivial) hnot hother
  | delivering es =>
    simp only [Hub.work, hp]
    refine d.hub.resume_elsewhere fun n hn ht => hother _ ht (hx.notices n ?_)
    simpa only [Handler.owed, hp] using hn

namespace InStep

variable {T : Key → Key → Prop} {h₀ : Hub} {ns : List Notification} {d : Dispatcher} {x : Handler}

/-- What is owed for a notebook is owed to its own documents. -/
theorem notices (hs : d.InStep T h₀ ns) {N : Key} :
    ∀ n ∈ noticesOf (d.owedFor N), T N n.document.key := by
  intro n hn
  obtain ⟨e, he, hnotice⟩ := List.mem_filterMap.mp hn
  obtain ⟨y, hy, howed⟩ := List.mem_flatMap.mp he
  obtain ⟨hmem, hlock⟩ := mem_lineAt.mp hy
  obtain ⟨M, hM⟩ := hs.serves y hmem
  obtain rfl : M = N := LockKey.notebook.inj (hM.lock.symm.trans hlock)
  have htouched := hM.notices n (List.mem_filterMap.mpr ⟨e, howed, hnotice⟩)
  exact (hM.within M (Notification.worksOn_iff.mp hM.worksOn).1 _ htouched M).mpr rfl

/-- Nothing has happened that concerns the notebook. -/
theorem follows_of_agree (hs : d.InStep T h₀ ns) {d' : Dispatcher} {N : Key}
    (hline : d'.lineAt (.notebook N) = d.lineAt (.notebook N))
    (ha : Hub.Agree N (T N) d.hub d'.hub) : d'.Follows T h₀ ns N := by
  obtain ⟨begun, h, hns, hrun, a⟩ := hs.follows N
  have howed : d'.owedFor N = d.owedFor N := by rw [owedFor, owedFor, hline]
  have hwait : d'.waitingFor N = d.waitingFor N := by rw [waitingFor, waitingFor, hline]
  refine ⟨begun, h, by rw [hwait]; exact hns, hrun, ?_⟩
  rw [howed]
  exact a.extend (ha.foldl_carryOut rfl hs.notices) (.refl h)

theorem note (hs : d.InStep T h₀ ns) (uri : String) (n : Note) :
    InStep T h₀ (ns ++ [.saveNotebook uri]) { d with hub := d.hub.note n } where
  kinds m hm := by
    rcases List.mem_append.mp hm with hm | hm
    · exact hs.kinds m hm
    · exact .inl ⟨uri, List.mem_singleton.mp hm⟩
  serves := hs.serves
  follows N := by
    have hf : Follows T h₀ ns { d with hub := d.hub.note n } N :=
      hs.follows_of_agree rfl (.withJournal _)
    unfold Follows at hf ⊢
    simpa [List.filter_append, Notification.worksOn] using hf

theorem join (hs : d.InStep T h₀ ns) {n : Notification} {k : Key} (hn : n.worksOn k = true)
    (hw : n.Within T) : (d.join n k).InStep T h₀ (ns ++ [n]) where
  kinds m hm := by
    rcases List.mem_append.mp hm with hm | hm
    · exact hs.kinds m hm
    · obtain rfl := List.mem_singleton.mp hm
      exact .inr ⟨k, hn⟩
  serves y hy := by
    rcases List.mem_append.mp hy with hy | hy
    · exact hs.serves y hy
    · obtain rfl := List.mem_singleton.mp hy
      obtain ⟨habout, _⟩ := Notification.worksOn_iff.mp hn
      refine ⟨k, hn, ?_, ?_, hw, by simp [newcomer, Handler.owed, noticesOf]⟩
      · simp [newcomer, Hub.ticket, habout.1]
      · exact d.hub.isSome_token_ticket n k
  follows N := by
    have habout := (Notification.worksOn_iff.mp hn).1
    have hlock : (d.hub.ticket n k).lock = .notebook k := by simp [Hub.ticket, habout.1]
    by_cases hN : k = N
    · subst hN
      obtain ⟨begun, h, hns, hrun, a⟩ := hs.follows k
      have hline := d.lineAt_join n k (.notebook k)
      rw [if_pos hlock] at hline
      have howed : (d.join n k).owedFor k = d.owedFor k := by
        simp [owedFor, hline, newcomer, Handler.owed]
      have hwait : (d.join n k).waitingFor k = d.waitingFor k ++ [n] := by
        rw [waitingFor_join, if_pos hlock]
      refine ⟨begun, h, ?_, hrun, ?_⟩
      · rw [List.filter_append, hns, hwait, List.append_assoc]
        simp [hn]
      · have hjoin : Hub.Agree k (T k) d.hub (d.join n k).hub := .withPasses _
        rw [howed]
        exact a.extend (hjoin.foldl_carryOut rfl hs.notices) (.refl h)
    · have hother : (d.hub.ticket n k).lock ≠ .notebook N := by
        rw [hlock]
        exact fun he => hN (LockKey.notebook.inj he)
      have hline := d.lineAt_join n k (.notebook N)
      rw [if_neg hother] at hline
      have hskip := worksOn_of_lock_ne habout.2 hother
      have hf : Follows T h₀ ns (d.join n k) N := hs.follows_of_agree hline (.withPasses _)
      unfold Follows at hf ⊢
      simpa [List.filter_append, hskip] using hf

/-- The errands that a handler is left with give notice of documents that it touches. -/
theorem notices_work (hs : d.InStep T h₀ ns) {N : Key} (hx : x.Serves T N) {es : List Errand}
    (hempty : x.progress = .queued → d.owedFor N = []) (hok : (d.hub.work x).2 = .ok es) :
    ∀ n ∈ noticesOf es, x.notification.Touches n.document.key := by
  intro n hn
  have habout := (Notification.worksOn_iff.mp hx.worksOn).1
  cases hp : x.progress with
  | queued =>
    obtain ⟨_, h, _, _, a⟩ := hs.follows N
    rw [hempty hp] at a
    obtain ⟨g, fs, hrun, _, rfl⟩ := Hub.work_begins hp hok
    have hown : ∀ k, x.notification.Touches k → T N k :=
      fun k hk => (hx.within N habout k hk N).mpr rfl
    rw [g.noticesOf_proceed] at hn
    exact Hub.notices_of_begin a habout hown hrun n hn
  | delivering fs =>
    simp only [Hub.work, hp] at hok
    obtain rfl := Except.ok.inj hok
    apply hx.notices n
    simp only [Handler.owed, hp]
    rw [d.hub.noticesOf_resume] at hn
    exact ((List.tail_sublist fs).filterMap _).subset hn

/-- A handler that works keeps its notebook in step: what it registers, the whole notification does
when it is handled in turn, and what it delivers was owed. -/
theorem follows_work (hs : d.InStep T h₀ ns) (ho : d.Orderly) (hx : d.Leads x) {N : Key}
    (hserves : x.Serves T N) {es : List Errand} (hok : (d.hub.work x).2 = .ok es) :
    (d.work x).Follows T h₀ ns N := by
  obtain ⟨rest, hline, hq, howed, hwait⟩ := standing_of_leads ho hx hserves.lock
  obtain ⟨howed', hwait'⟩ := standing_work ho hx hserves.lock hok hline hq
  obtain ⟨passes, hhub⟩ := work_hub d x
  obtain ⟨begun, h, hns, hrun, a⟩ := hs.follows N
  have hpasses (g : Hub) (fs : List Errand) (hT : ∀ n ∈ noticesOf fs, T N n.document.key) :
      Hub.Agree N (T N) (fs.foldl Hub.carryOut g) (fs.foldl Hub.carryOut { g with passes }) :=
    Hub.Agree.foldl_carryOut (.withPasses passes) rfl hT
  have hempty : x.progress = .queued → d.owedFor N = [] :=
    fun hp => by simp [howed, Handler.owed, hp]
  have habout := (Notification.worksOn_iff.mp hserves.worksOn).1
  have hown : ∀ k, x.notification.Touches k → T N k := fun k hk =>
    (hserves.within N habout k hk N).mpr rfl
  have hnotices : ∀ n ∈ noticesOf es, T N n.document.key := fun n hn =>
    hown _ (hs.notices_work hserves hempty hok n hn)
  cases hp : x.progress with
  | queued =>
    rw [hempty hp] at a
    obtain ⟨hub, fs, hbegin, hwork, rfl⟩ := Hub.work_begins hp hok
    obtain ⟨g, hg, a'⟩ := Hub.handle_follows a hserves.worksOn hown hserves.token hbegin
    refine ⟨begun ++ [x.notification], g, ?_, Hub.handleAll_snoc hrun hg, ?_⟩
    · rw [hns, hwait, hwait', if_pos hp]
      simp
    · rw [howed', hhub, hwork]
      rw [← (hub.proceed_spec fs).1] at a'
      exact a'.extend (hpasses _ _ hnotices) (.refl g)
  | delivering fs =>
    have hat := ho.atLookup x hx.mem fs hp
    obtain ⟨e, fs, rfl, hlookups⟩ := hat
    simp only [Hub.work, hp] at hok hhub
    obtain rfl := Except.ok.inj hok
    rw [howed, Handler.owed, hp] at a
    refine ⟨begun, h, ?_, hrun, ?_⟩
    · rw [hns, hwait, hwait', hp]
      simp
    · rw [howed', hhub]
      rw [← d.hub.foldl_resume hlookups] at a
      exact a.extend (hpasses _ _ hnotices) (.refl h)

theorem work (hs : d.InStep T h₀ ns) (ho : d.Orderly) (hx : d.Leads x) {es : List Errand}
    (hok : (d.hub.work x).2 = .ok es) : (d.work x).InStep T h₀ ns where
  kinds := hs.kinds
  serves y hy := by
    rcases mem_work hy with ⟨hy, _⟩ | ⟨_, z, hz, hid, e, fs, rfl, hr⟩
    · exact hs.serves y hy
    · obtain rfl := ho.eq_of_id hz hx.mem hid
      obtain rfl : es = e :: fs := Except.ok.inj (hok.symm.trans hr)
      obtain ⟨N, hserves⟩ := hs.serves z hz
      obtain ⟨_, _, _, howed, _⟩ := standing_of_leads ho hx hserves.lock
      refine ⟨N, { hserves with notices := ?_ }⟩
      exact hs.notices_work hserves (fun hp => by simp [howed, Handler.owed, hp]) hok
  follows N := by
    obtain ⟨M, hserves⟩ := hs.serves x hx.mem
    by_cases hN : N = M
    · subst hN
      exact hs.follows_work ho hx hserves hok
    · refine hs.follows_of_agree (lineAt_work ho hx ?_) (work_elsewhere hserves hN)
      rw [hserves.lock]
      exact fun he => hN (LockKey.notebook.inj he).symm

end InStep

/-- Who has ended is not forgotten. -/
theorem ended_step {d : Dispatcher} (ho : d.Orderly) (e : Event) :
    d.ended <+: (d.step e).ended := by
  have hwork (d : Dispatcher) (x : Handler) : d.ended <+: (d.work x).ended := by
    rcases work_cases d x with ⟨fault, he, _⟩ | ⟨e, es, he, _⟩
    · rw [he]
      exact List.prefix_append ..
    · rw [he]
      exact List.prefix_refl _
  have hstep := step_happens ho e
  generalize d.step e = d' at hstep ⊢
  cases hstep with
  | save uri => exact List.prefix_refl _
  | refuse hn hk => exact List.prefix_append ..
  | wait hn hk => exact List.prefix_refl _
  | begin hn hk hx => exact hwork (d.join _ _) _
  | idle hid => exact List.prefix_refl _
  | resume hx => exact hwork d _
  | shutdown => exact List.prefix_refl _

theorem ended_run {d : Dispatcher} (ho : d.Orderly) (events : List Event) :
    d.ended <+: (d.run events).ended := by
  induction events generalizing d with
  | nil => exact List.prefix_refl _
  | cons e events ih => exact (ended_step ho e).trans (ih (ho.step e))

def Unfailing (d : Dispatcher) : Prop := ∀ p ∈ d.ended, p.2 = none

theorem Unfailing.work {d : Dispatcher} {x : Handler} (hu : (d.work x).Unfailing) :
    ∃ es, (d.hub.work x).2 = .ok es := by
  rcases work_cases d x with ⟨fault, he, hr⟩ | ⟨e, es, _, hr⟩
  · cases fault with
    | none => exact ⟨[], hr⟩
    | some fault =>
      have hfault := hu (x.id, some fault) (by simp [he, conclude])
      cases hfault
  · exact ⟨e :: es, hr⟩

theorem Unfailing.first {d : Dispatcher} (ho : d.Orderly) {e : Event} {events : List Event}
    (hu : (d.run (e :: events)).Unfailing) : (d.step e).Unfailing := fun p hp =>
  hu p ((ended_run (ho.step e) events).subset hp)

section Runs

variable {T : Key → Key → Prop} {h₀ : Hub} {ns : List Notification} {d : Dispatcher}

theorem InStep.step (hs : d.InStep T h₀ ns) (ho : d.Orderly) {e : Event}
    (he : e.isOfNotebooks = true) (hw : ∀ n, e = .arrive n → n.Within T)
    (hu : (d.step e).Unfailing) :
    (d.step e).InStep T h₀ (ns ++ arrivals [e]) := by
  have hstep := step_happens ho e
  generalize d.step e = d' at hstep hu ⊢
  cases hstep with
  | save uri => exact hs.note uri _
  | refuse hn hk =>
    rename_i n err
    have hfault := hu (d.arrived, some (.uri err)) (by simp [refuse])
    cases hfault
  | wait hn hk => exact hs.join (Notification.worksOn_iff.mpr ⟨⟨he, hk⟩, hn⟩) (hw _ rfl)
  | begin hn hk hx =>
    obtain ⟨es, hok⟩ := hu.work
    exact (hs.join (Notification.worksOn_iff.mpr ⟨⟨he, hk⟩, hn⟩) (hw _ rfl)).work
      (ho.join _ _) hx hok
  | idle hid => simpa [arrivals] using hs
  | resume hx =>
    obtain ⟨es, hok⟩ := hu.work
    simpa [arrivals] using hs.work ho hx hok
  | shutdown => cases he

theorem InStep.run (hs : d.InStep T h₀ ns) (ho : d.Orderly) {events : List Event}
    (he : ∀ e ∈ events, e.isOfNotebooks = true) (hw : ∀ n ∈ arrivals events, n.Within T)
    (hu : (d.run events).Unfailing) : (d.run events).InStep T h₀ (ns ++ arrivals events) := by
  induction events generalizing d ns with
  | nil => simpa [arrivals, Dispatcher.run] using hs
  | cons e events ih =>
    have hstep :=
      hs.step ho (he e (by simp)) (fun n hn => hw n (mem_arrivals_cons.mpr (.inl hn))) (hu.first ho)
    have hrun := ih hstep (ho.step e) (fun e' h => he e' (List.mem_cons_of_mem e h))
      (fun n hn => hw n (mem_arrivals_cons.mpr (.inr hn))) hu
    rw [arrivals_cons, ← List.append_assoc]
    exact hrun

/-- A hub that has nothing open is in order. -/
theorem alike_fresh (settings : Settings) (route : Route) (roster : Roster) (N : Key)
    (S : Key → Prop) :
    Hub.Alike N S (fresh settings route roster).hub (fresh settings route roster).hub where
  toAgree := .refl _
  filed n hn := by simp [fresh, start, Store.get?] at hn
  addressed k d _ hd := by simp [fresh, start, Registry.get?] at hd
  keyed n hn := by simp [fresh, start, Store.get?] at hn

theorem inStep_fresh (settings : Settings) (route : Route) (roster : Roster) :
    (fresh settings route roster).InStep T (fresh settings route roster).hub [] where
  kinds := by simp
  serves := by simp [fresh, start]
  follows N := by
    have howed : (fresh settings route roster).owedFor N = [] := by
      simp [owedFor, lineAt, fresh, start]
    refine ⟨[], (fresh settings route roster).hub,
      by simp [waitingFor, lineAt, fresh, start], rfl, ?_⟩
    rw [howed]
    exact alike_fresh settings route roster N (T N)

/-- When all have ended, each notebook is as if its own notifications had been handled in turn. -/
theorem InStep.settled (hs : d.InStep T h₀ ns) (hidle : d.isIdle = true) (N : Key) :
    ∃ h, h₀.handleAll (ns.filter (·.worksOn N)) = .ok h ∧ Hub.Alike N (T N) d.hub h := by
  have hnone : d.handlers = [] := List.isEmpty_iff.mp hidle
  obtain ⟨begun, h, hns, hrun, a⟩ := hs.follows N
  have hline : d.lineAt (.notebook N) = [] := by simp [lineAt, hnone]
  rw [waitingFor, hline] at hns
  rw [owedFor, hline] at a
  have hall : ns.filter (·.worksOn N) = begun := by simpa using hns
  exact ⟨h, hall ▸ hrun, a⟩

end Runs

/-- A document is counted to a notebook unless the notifications of another one touch it. -/
def CountedTo (ns : List Notification) (N k : Key) : Prop :=
  ∀ n ∈ ns, ∀ M, n.About M → n.Touches k → N = M

/-- No document is touched by the notifications of two notebooks. -/
def Separate (ns : List Notification) : Prop :=
  ∀ n ∈ ns, ∀ m ∈ ns, ∀ k, n.Touches k → m.Touches k → Uri.key n.uri = Uri.key m.uri

theorem Separate.within {ns : List Notification} (hs : Separate ns) {n : Notification}
    (hn : n ∈ ns) :
    n.Within (CountedTo ns) := by
  intro M hM k hk N
  constructor
  · intro hN
    exact hN n hn M hM hk
  · rintro rfl m hm M' hM' hk'
    have hkeys := hs n hn m hm k hk hk'
    rw [hM.2, hM'.2] at hkeys
    exact Except.ok.inj hkeys

/-- Every document is counted to some notebook. -/
theorem Separate.exists_countedTo {ns : List Notification} (hs : Separate ns) (k : Key) :
    ∃ N, CountedTo ns N k := by
  by_cases ht : ∃ n ∈ ns, ∃ M, n.About M ∧ n.Touches k
  · obtain ⟨n, hn, M, hM, hk⟩ := ht
    exact ⟨M, (hs.within hn M hM k hk M).mpr rfl⟩
  · exact ⟨k, fun n hn M hM hk => absurd ⟨n, hn, M, hM, hk⟩ ht⟩

/-- However handlers are held up, once all have ended the notebooks and the documents are, apart
from chains, what they are when the same notifications are handled one after the other, and of each
document the same was said to the same workspaces in the same order. -/
theorem schedule_independent {settings : Settings} {route : Route} {roster : Roster}
    {events : List Event} (hevents : ∀ e ∈ events, e.isOfNotebooks = true)
    (hseparate : Separate (arrivals events))
    (hidle : ((fresh settings route roster).run events).isIdle = true)
    (hgood : ((fresh settings route roster).run events).Unfailing) :
    ∃ g, Hub.handleAll { settings, route, roster } (arrivals events) = .ok g ∧
      (∀ N, ((fresh settings route roster).run events).hub.store.get? N = g.store.get? N) ∧
      ∀ k, (((fresh settings route roster).run events).hub.documents.get? k).map Document.unlinked =
          (g.documents.get? k).map Document.unlinked ∧
        ((fresh settings route roster).run events).hub.calls.filter (Call.isAbout k) =
          g.calls.filter (Call.isAbout k) := by
  have hrun := (inStep_fresh (T := CountedTo (arrivals events)) settings route roster).run
    (orderly_fresh settings route roster) hevents (fun n hn => hseparate.within hn) hgood
  rw [List.nil_append] at hrun
  obtain ⟨g, hg, heach⟩ := Hub.handleAll_each
    (P := fun N e => Hub.Agree N (CountedTo (arrivals events) N)
      ((fresh settings route roster).run events).hub e)
    (fun n hn => ⟨hseparate.within hn, hrun.kinds n hn⟩)
    fun N => by
      obtain ⟨e, he, a⟩ := hrun.settled hidle N
      exact ⟨_, e, alike_fresh settings route roster N _, he, a.toAgree⟩
  have hagree (N : Key) : Hub.Agree N (CountedTo (arrivals events) N)
      ((fresh settings route roster).run events).hub g := by
    obtain ⟨e, hfirst, hrest⟩ := heach N
    exact hfirst.trans hrest
  refine ⟨g, hg, fun N => (hagree N).notebook.symm, fun k => ?_⟩
  obtain ⟨N, hN⟩ := hseparate.exists_countedTo k
  exact ⟨((hagree N).documents k hN).symm, ((hagree N).calls k hN).symm⟩

/-- Two notebooks are opened; the first gets an edit that has to wait. -/
def twoNotebooks : List Event :=
  [.arrive (.openNotebook ⟨"nb:1", "t", 1, none, [⟨.code, "c:a", none, none⟩]⟩
    [⟨"c:a", .unnamed, 1, ""⟩]),
    .arrive (.openNotebook ⟨"nb:2", "t", 1, none, [⟨.code, "c:b", none, none⟩]⟩
      [⟨"c:b", .unnamed, 1, ""⟩]),
    .arrive (.changeNotebook "nb:1" 2 ⟨none, none, none, some [⟨"c:a", 2, [.whole "x"]⟩]⟩),
    .resume 1, .resume 0, .resume 2, .resume 2]

theorem schedule_independent_twoNotebooks :
    ((fresh {} .registry (.start true)).run twoNotebooks).isIdle = true ∧
      ∃ g, Hub.handleAll { roster := .start true } (arrivals twoNotebooks) = .ok g ∧
        ((fresh {} .registry (.start true)).run twoNotebooks).hub.calls.filter
        (Call.isAbout ⟨"c:a"⟩) =
          g.calls.filter (Call.isAbout ⟨"c:a"⟩) := by
  have hkeys : ∀ n ∈ arrivals twoNotebooks, ∀ m ∈ arrivals twoNotebooks, ∀ u ∈ n.touched,
    ∀ v ∈ m.touched,
      Uri.key u = Uri.key v → Uri.key n.uri = Uri.key m.uri := by decide +kernel
  have hseparate : Separate (arrivals twoNotebooks) := by
    rintro n hn m hm k ⟨u, hu, hku⟩ ⟨v, hv, hkv⟩
    exact hkeys n hn m hm u hu v hv (hku.trans hkv.symm)
  have hidle : ((fresh {} .registry (.start true)).run twoNotebooks).isIdle = true := by
    decide +kernel
  obtain ⟨g, hg, _, hdocuments⟩ := schedule_independent (by decide) hseparate hidle (by
    unfold Unfailing
    decide +kernel)
  exact ⟨hidle, g, hg, (hdocuments ⟨"c:a"⟩).2⟩

end Dispatcher
end NotebookHub
