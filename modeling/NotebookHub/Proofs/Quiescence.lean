import NotebookHub.Proofs.Splices

namespace NotebookHub

namespace Notification

/-- When these have begun in turn, a token of their notebook is not left over: the notebook is open,
or one of them was a change that found it closed. -/
def tidies (cells : Option (List String)) : List Notification → Bool
  | [] => cells.isSome
  | n :: ns => n.isChange && cells.isNone || tidies (n.relist cells) ns

theorem relist_of_not_notebook {n : Notification} (hn : n.isNotebook = false)
    (cells : Option (List String)) :
    n.relist cells = cells := by
  cases n with
  | openDocument | changeDocument | closeDocument => rfl
  | openNotebook | changeNotebook | saveNotebook | closeNotebook => cases hn

/-- Who takes a token tidies up after itself, and nobody but a closing spoils it. -/
theorem tidies_snoc {cells : Option (List String)} {ns : List Notification} {n : Notification}
    (hn : n.restarts = true ∨ n.isClose = false ∧ tidies cells ns = true) :
    tidies cells (ns ++ [n]) = true := by
  induction ns generalizing cells with
  | nil =>
    rcases hn with hr | ⟨hclose, hcells⟩
    · cases n with
      | openNotebook notebook items => rfl
      | changeNotebook uri version change =>
        obtain ⟨s, hs⟩ := Option.isSome_iff_exists.mp hr
        cases cells <;> simp [tidies, isChange, relist, hs]
      | saveNotebook | closeNotebook | openDocument | changeDocument | closeDocument => cases hr
    · simp [tidies, relist_isSome hclose hcells]
  | cons m ns ih =>
    simp only [List.cons_append, tidies, Bool.or_eq_true] at hn ⊢
    rcases hn with hr | ⟨hclose, hdropped | hrest⟩
    · exact .inr (ih (.inl hr))
    · exact .inl hdropped
    · exact .inr (ih (.inr ⟨hclose, hrest⟩))

end Notification

namespace Dispatcher

def Tidy (N : Key) (d : Dispatcher) : Prop :=
  (d.hub.passes.current.get? N).isSome = true →
    Notification.tidies (d.hub.cellsAt N) (d.waitingFor N) = true

/-- A handler of a notebook's own that stands in its line is about it. -/
theorem Sound.about_of_lock {d : Dispatcher} {x : Handler} (hs : d.Sound) (hx : x ∈ d.handlers)
    {N : Key} (hn : x.notification.isNotebook = true) (hlock : x.ticket.lock = .notebook N) :
    x.notification.About N := by
  obtain ⟨k, hk, hown, _⟩ := hs.ticket x hx
  obtain rfl : k = N := LockKey.notebook.inj ((hown hn).symm.trans hlock)
  exact ⟨hn, hk⟩

/-- In the line of a notebook, whoever begins does to the notebook's list what its notification
does. -/
theorem cellsAt_work_queued {d : Dispatcher} {x : Handler} {N : Key} {es : List Errand}
    (hs : d.Sound) (hx : x ∈ d.handlers) (hp : x.progress = .queued)
    (hlock : x.ticket.lock = .notebook N) (hok : (d.hub.work x).2 = .ok es) :
    (d.hub.work x).1.cellsAt N = x.notification.relist (d.hub.cellsAt N) := by
  rw [Hub.cellsAt_work hs.filed hok]
  split
  · rfl
  · rename_i hworks
    cases hn : x.notification.isNotebook with
    | false => rw [Notification.relist_of_not_notebook hn]
    | true =>
      obtain ⟨uri, hsave⟩ : ∃ uri, x.notification = .saveNotebook uri := by
        by_contra hnone
        exact hworks ⟨hp, Notification.worksOn_iff.mpr
          ⟨hs.about_of_lock hx hn hlock, fun uri he => hnone ⟨uri, he⟩⟩⟩
      rw [hsave]
      rfl

/-- A change that finds its notebook closed ends at once and drops the token. -/
theorem passes_of_change_of_closed {d : Dispatcher} {x : Handler} {N : Key} {uri : String}
    {version : Int} {change : NotebookChange} {es : List Errand} (hp : x.progress = .queued)
    (hn : x.notification = .changeNotebook uri version change) (hN : Uri.key uri = .ok N)
    (hlock : x.ticket.lock = .notebook N) (hclosed : d.hub.cellsAt N = none)
    (hok : (d.hub.work x).2 = .ok es) : (d.work x).hub.passes = d.hub.passes.forget N := by
  obtain ⟨g, fs, hrun, hwork, hes⟩ := Hub.work_begins hp hok
  rw [hn] at hrun
  have hnone : d.hub.store.get? N = none := Option.map_eq_none_iff.mp hclosed
  rcases Hub.beginChange_spec hN hrun with ⟨_, rfl, hsame⟩ | ⟨notebook, _, _, _, _, hopen, _⟩
  · -- nothing is owed, so the handler ends where it began
    have hfirst : d.hub.work x = (g, .ok []) := Prod.ext hwork (hok.trans (congrArg Except.ok hes))
    have hafter : g.store.get? N = none := Option.map_eq_none_iff.mp ((hsame.cells N).trans hclosed)
    have hpasses : g.passes = d.hub.passes := by simpa only [hfirst] using d.hub.passes_work x
    unfold work
    rw [hfirst]
    simp [settle, conclude, Hub.conclude_eq, Hub.passesAfter, hn, hlock, hafter, hpasses]
  · simp [hnone] at hopen

namespace Tidy

variable {N : Key} {d : Dispatcher} {x : Handler}

theorem join (ht : d.Tidy N) {n : Notification} {k : Key} (hk : Uri.key n.uri = .ok k) :
    (d.join n k).Tidy N := by
  intro htoken
  obtain ⟨g, hg⟩ := Option.isSome_iff_exists.mp htoken
  change Notification.tidies (d.hub.cellsAt N) ((d.join n k).waitingFor N) = true
  rw [waitingFor_join]
  rcases Hub.current_passesAt hk hg with ⟨hold, hkept⟩ | ⟨hr, rfl, _⟩
  · have hbefore := ht (Option.isSome_iff_exists.mpr ⟨g, hold⟩)
    split
    · rename_i hlock
      refine Notification.tidies_snoc (.inr ⟨?_, hbefore⟩)
      -- a closing of the notebook would have dropped the token
      rw [Bool.eq_false_iff]
      intro hclose
      cases n with
      | closeNotebook uri cells =>
        obtain rfl : k = N := LockKey.notebook.inj hlock
        exact hkept ⟨.inr rfl, hk⟩
      | openNotebook | changeNotebook | saveNotebook | openDocument | changeDocument |
        closeDocument =>
        cases hclose
    · exact hbefore
  · have hlock : (d.hub.ticket n k).lock = .notebook k := by
      cases n with
      | openNotebook | changeNotebook => rfl
      | saveNotebook | closeNotebook | openDocument | changeDocument | closeDocument => cases hr
    rw [if_pos hlock]
    exact Notification.tidies_snoc (.inl hr)

theorem work (ht : d.Tidy N) (hs : d.Sound) (ho : d.Orderly) (hx : d.Leads x) {es : List Errand}
    (hok : (d.hub.work x).2 = .ok es) : (d.work x).Tidy N := by
  intro htoken
  obtain ⟨g, hg⟩ := Option.isSome_iff_exists.mp htoken
  have hbefore := ht (Option.isSome_iff_exists.mpr ⟨g, current_work hg⟩)
  have hcells : (d.work x).hub.cellsAt N = (d.hub.work x).1.cellsAt N := by
    simp only [Hub.cellsAt, store_work]
  rw [hcells]
  by_cases hlock : x.ticket.lock = .notebook N
  · obtain ⟨rest, hline, hq, _, hwait⟩ := standing_of_leads ho hx hlock
    obtain ⟨_, hwait'⟩ := standing_work ho hx hlock hok hline hq
    rw [hwait] at hbefore
    rw [hwait']
    cases hp : x.progress with
    | delivering fs =>
      rw [Hub.cellsAt_work hs.filed hok]
      simpa [hp] using hbefore
    | queued =>
      rw [cellsAt_work_queued hs hx.mem hp hlock hok]
      simp only [hp, if_true, List.singleton_append, Notification.tidies, Bool.or_eq_true,
        Bool.and_eq_true] at hbefore
      refine hbefore.resolve_left ?_
      -- such a change would have dropped the token just now
      rintro ⟨hchange, hnone⟩
      cases hn : x.notification with
      | changeNotebook uri version change =>
        have hN : Uri.key uri = .ok N := by
          have habout := hs.about_of_lock hx.mem (by rw [hn]; rfl) hlock
          rw [hn] at habout
          exact habout.2
        rw [passes_of_change_of_closed hp hn hN hlock
          (Option.isNone_iff_eq_none.mp hnone) hok] at hg
        exact (Passes.current_forget hg).1 rfl
      | openNotebook | saveNotebook | closeNotebook | openDocument | changeDocument |
        closeDocument =>
        simp [hn, Notification.isChange] at hchange
  · have hother : ¬ (x.progress = .queued ∧ x.notification.worksOn N = true) := by
      rintro ⟨_, hw⟩
      exact hlock (hs.lock_of_about hx.mem (Notification.worksOn_iff.mp hw).1)
    rw [Hub.cellsAt_work hs.filed hok, if_neg hother]
    simpa only [waitingFor, lineAt_work ho hx hlock] using hbefore

theorem step (ht : d.Tidy N) (hs : d.Sound) (ho : d.Orderly) {e : Event}
    (hu : (d.step e).Unfailing) :
    (d.step e).Tidy N := by
  have hstep := step_happens ho e
  generalize d.step e = d' at hstep hu ⊢
  cases hstep with
  | save uri => exact ht
  | refuse hn hk => exact ht
  | wait hn hk => exact ht.join hk
  | begin hn hk hx =>
    obtain ⟨es, hok⟩ := hu.work
    exact (ht.join hk).work (hs.join hk) (ho.join _ _) hx hok
  | idle hid => exact ht
  | resume hx =>
    obtain ⟨es, hok⟩ := hu.work
    exact ht.work hs ho hx hok
  | shutdown =>
    intro htoken
    simp [Hub.shutdown, Hub.clearWorkspaces, Passes.reset] at htoken

theorem run (ht : d.Tidy N) (hs : d.Sound) (ho : d.Orderly) {events : List Event}
    (hu : (d.run events).Unfailing) : (d.run events).Tidy N := by
  induction events generalizing d with
  | nil => exact ht
  | cons e events ih =>
    exact ih (ht.step hs ho (hu.first ho)) (hs.step ho e) (ho.step e) hu

end Tidy

/-- A notebook whose lock nobody holds or awaits has a token only if it is open. -/
theorem open_of_token {settings : Settings} {route : Route} {roster : Roster} {events : List Event}
    {d : Dispatcher} (hd : d = (fresh settings route roster).run events)
    (hgood : d.Unfailing) {N : Key}
    (hended : d.lineAt (.notebook N) = []) (htoken : (d.hub.passes.current.get? N).isSome = true) :
    (d.hub.store.get? N).isSome = true := by
  have hfresh : (fresh settings route roster).Tidy N := fun htoken => by
    simp [fresh, start] at htoken
  subst hd
  have htidy :=
    hfresh.run (sound_fresh settings route roster)
    (orderly_fresh settings route roster) hgood htoken
  simpa [waitingFor, hended, Notification.tidies, Hub.cellsAt] using htidy

/-- When no handler is in flight no lock is up. -/
theorem Orderly.no_locks {d : Dispatcher} (ho : d.Orderly) (hidle : d.isIdle = true) :
    d.locks.locks = .empty ∧ d.locks.users = .empty := by
  have hnone : d.handlers = [] := List.isEmpty_iff.mp hidle
  have hdown (k : LockKey) : d.locks.locks.get? k = none := by
    have hqueue : d.locks.queue k = [] := by simp [ho.queue, lineAt, hnone]
    simpa [hqueue] using ho.locks.isSome_iff k
  refine ⟨Table.eq_empty_of_get? hdown, Table.eq_empty_of_get? fun k => ?_⟩
  rw [ho.locks.users, hdown]
  rfl

/-- Whatever arrived in whatever order, and whenever shutdowns came: when no handler is in flight
and none has failed, only open notebooks have a token, and no lock is up. -/
theorem nothing_left_over {settings : Settings} {route : Route} {roster : Roster}
    {events : List Event} {d : Dispatcher} (hd : d = (fresh settings route roster).run events)
    (hgood : d.Unfailing) (hidle : d.isIdle = true) :
    (∀ N, (d.hub.passes.current.get? N).isSome = true → (d.hub.store.get? N).isSome = true) ∧
      d.locks.locks = .empty ∧ d.locks.users = .empty := by
  have hnone : d.handlers = [] := List.isEmpty_iff.mp hidle
  have ho : d.Orderly := hd ▸ (orderly_fresh ..).run events
  exact ⟨fun N => open_of_token hd hgood (by simp [lineAt, hnone]), ho.no_locks hidle⟩

/-- A notebook is opened and changed, and all is shut down while the opening is at a lookup. Another
notebook is opened; then the first one again, its closing, and a change that comes too late. -/
def lateChanges : List Event :=
  [.arrive (.openNotebook ⟨"nb:1", "t", 1, none, [⟨.code, "c:a", none, none⟩]⟩
    [⟨"c:a", .unnamed, 1, ""⟩]),
    .arrive (putIn 1 "c:b"), .shutdown, .arrive (.openNotebook ⟨"nb:2", "t", 1, none, []⟩ []),
    .arrive (.openNotebook ⟨"nb:1", "t", 1, none, []⟩ []), .arrive (.closeNotebook "nb:1" []),
    .arrive (putIn 0 "c:c"), .resume 0, .resume 1, .resume 3, .resume 4, .resume 5]

/-- The late change has its token to the end, and then the only token is that of the notebook that
is open. -/
theorem nothing_left_over_lateChanges :
    ((fresh {} .registry (.start true)).run (lateChanges.take 8)).hub.passes.current.keys =
        [⟨"nb:2"⟩, ⟨"nb:1"⟩] ∧
      ((fresh {} .registry (.start true)).run lateChanges).hub.passes.current.keys = [⟨"nb:2"⟩] ∧
      (((fresh {} .registry (.start true)).run lateChanges).hub.store.get? ⟨"nb:2"⟩).isSome = true ∧
      ((fresh {} .registry (.start true)).run lateChanges).locks.locks = .empty := by
  have hgood : ((fresh {} .registry (.start true)).run lateChanges).Unfailing := by
    unfold Unfailing
    decide +kernel
  obtain ⟨hopen, hlocks, _⟩ := nothing_left_over rfl hgood (by decide +kernel)
  exact ⟨by decide +kernel, by decide +kernel, hopen ⟨"nb:2"⟩ (by decide +kernel), hlocks⟩

end Dispatcher
end NotebookHub
