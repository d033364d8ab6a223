import NotebookHub.Proofs.Positions
import NotebookHub.Proofs.Schedules
import NotebookHub.Proofs.Shutdown

namespace NotebookHub

def StructureChange.respliced (s : StructureChange) (ds : List String) : List String :=
  ds.take s.start ++ s.inserted.map Cell.document ++ ds.drop (s.start + s.deleteCount)

theorem documents_splice (cells : List Cell) (s : StructureChange) :
    (splice cells s.start s.deleteCount s.inserted).1.map Cell.document =
      s.respliced (cells.map Cell.document) := by
  have htake : cells.take (min s.start cells.length) = cells.take s.start := by
    rw [List.take_eq_take_iff]
    omega
  have hdrop : cells.drop (min s.start cells.length +
      ((cells.drop (min s.start cells.length)).take s.deleteCount).length) =
      cells.drop (s.start + s.deleteCount) := by
    rw [List.drop_eq_drop_iff, List.length_take, List.length_drop]
    omega
  simp only [splice, clampStart, Int.toNat_natCast, htake, hdrop, StructureChange.respliced,
    List.map_append, List.map_take, List.map_drop]

namespace Notification

def relist (cells : Option (List String)) : Notification → Option (List String)
  | .openNotebook notebook _ => some (notebook.cells.map Cell.document)
  | .changeNotebook _ _ change =>
    match change.structural with
    | some s => cells.map s.respliced
    | none => cells
  | .closeNotebook .. => none
  | _ => cells

theorem relist_isSome {n : Notification} {cells : Option (List String)} (hn : n.isClose = false)
    (hc : cells.isSome = true) : (n.relist cells).isSome = true := by
  cases n with
  | closeNotebook uri cells => cases hn
  | changeNotebook uri version change => cases hs : change.structural <;> simp [relist, hs, hc]
  | openNotebook => rfl
  | saveNotebook | openDocument | changeDocument | closeDocument => exact hc

def spliceOf (N : Key) : Notification → Option StructureChange
  | .changeNotebook uri _ change => if Uri.key uri = .ok N then change.structural else none
  | _ => none

/-- What does not work on the notebook has no splice of it. -/
theorem filterMap_spliceOf_filter (N : Key) (ns : List Notification) :
    (ns.filter (·.worksOn N)).filterMap (·.spliceOf N) = ns.filterMap (·.spliceOf N) := by
  rw [List.filterMap_filter]
  refine List.filterMap_congr fun n _ => ?_
  split
  · rfl
  · rename_i hw
    cases n with
    | changeNotebook uri version change =>
      have hkey : Uri.key uri ≠ .ok N := fun hk => hw (worksOn_iff.mpr ⟨⟨rfl, hk⟩, by simp⟩)
      simp [spliceOf, hkey]
    | _ => rfl

def Leaves (N : Key) (n : Notification) : Prop :=
  ¬ n.opensNotebook N ∧ ¬ (n.About N ∧ n.isClose = true)

theorem leaves_of_not_worksOn {N : Key} {n : Notification} (hw : ¬ n.worksOn N = true) :
    n.Leaves N := by
  constructor
  · rintro ⟨_, _, rfl, hkey⟩
    exact hw (worksOn_iff.mpr ⟨⟨rfl, hkey⟩, by simp⟩)
  · rintro ⟨habout, hclose⟩
    refine hw (worksOn_iff.mpr ⟨habout, ?_⟩)
    rintro uri rfl
    cases hclose

end Notification

namespace Hub

section Begin

variable {N : Key} {n : Notification} {token : Option Token} {h g : Hub} {es : List Errand}

theorem applyStructure_cells {notebook : Notebook} {change : StructureChange} {u : StructuralUpdate}
    (hN : Uri.key notebook.uri = .ok N) (hopen : (h.store.get? N).isSome)
    (hrun : (applyStructure N notebook change token).on h = (g, .ok u)) :
    g.cellsAt N = some (change.respliced notebook.documents) := by
  have hyields : Act.Yields (fun h => (h.store.get? N).isSome)
    (applyStructure N notebook change token)
      fun _ g => g.cellsAt N = some (change.respliced notebook.documents) := by
    have hkeep {α : Type} {a : Act α} (ha : Act.Preserves
        (fun h => h.cellsAt N = some (change.respliced notebook.documents))
          a) := Act.Yields.of_preserves ha
    have hjot (n : Note) : Act.Preserves
        (fun h => h.cellsAt N = some (change.respliced notebook.documents)) (Act.jot n) :=
          fun _ hg => hg
    unfold applyStructure
    dsimp only
    refine Act.Yields.bind
      (Q := fun _ h => h.cellsAt N = some (change.respliced notebook.documents))
      (.modify fun g hg => ?_) fun _ => ?_
    · obtain ⟨n, hn⟩ := Option.isSome_iff_exists.mp hg
      simp [cellsAt, Store.get?_modify, hn, Notebook.documents, documents_splice]
    refine (hkeep fun g hg => ?_).bind fun _ => ?_
    · rw [reindex_on]
      simpa only [cellsAt, Store.get?_reindex] using hg
    refine (hkeep (hjot _)).bind fun _ => ?_
    refine (hkeep (registerOpens_keeps (fun _ _ hp => hp) (fun _ _ hp => hp) _ _)).bind
      fun opened => ?_
    refine (hkeep (registerCloses_keeps (fun _ _ hp => hp) (fun _ _ hp => hp) _)).bind
      fun closed => ?_
    cases token with
    | none => exact .pure fun _ hg => hg
    | some t =>
      intro h g u hg hrun
      obtain ⟨h₁, links, hstage, hdone⟩ := Act.bind_eq_ok.mp hrun
      cases hdone
      rw [(stage_spec hN hstage).1.cellsAt]
      exact hg
  exact hyields h g u hopen hrun

/-- What is not about a notebook leaves its list. -/
theorem begin_cells_elsewhere (hn : ¬ n.About N) (hrun : (begin n token).on h = (g, .ok es)) :
    g.cellsAt N = h.cellsAt N := by
  have hr := registers_of_begin (C := fun _ => True) hrun fun _ _ => trivial
  simp only [cellsAt, hr.store N hn]

theorem begin_cells (hf : h.store.Filed) (hn : n.About N)
    (hrun : (begin n token).on h = (g, .ok es)) :
    g.cellsAt N = n.relist (h.cellsAt N) := by
  cases n with
  | openNotebook notebook items => exact begin_open_cells hn.2 hrun
  | changeNotebook uri version change =>
    have hN : Uri.key uri = .ok N := hn.2
    rcases beginChange_spec hN hrun with
      ⟨hnone, _, hsame⟩ | ⟨notebook, h₁, h₂, left, edits, hopen, hfirst, hs, hlast, _⟩
    · have hclosed : h.cellsAt N = none := by simp [cellsAt, hnone]
      rw [hsame.cells, hclosed]
      cases hs : change.structural <;> simp [Notification.relist, hs]
    · have hlisted : h.cellsAt N = some notebook.documents := by simp [cellsAt, hopen]
      rw [hlast.cells, hlisted]
      unfold changeStructure at hs
      split at hs
      · rename_i hplain
        cases hs
        simp only [Notification.relist, hplain, hfirst.cells, hlisted]
      · rename_i s hstructural
        obtain ⟨h₃, u, hu, hdone⟩ := Act.bind_eq_ok.mp hs
        cases hdone
        have hopen₁ : (h₁.store.get? N).isSome := by
          have hcells := congrArg Option.isSome ((hfirst.cells N).trans hlisted)
          simpa [cellsAt] using hcells
        rw [applyStructure_cells (hf N notebook hopen) hopen₁ hu]
        simp only [Notification.relist, hstructural, Option.map_some]
  | saveNotebook uri =>
    cases hrun
    rfl
  | closeNotebook uri cells =>
    simp [cellsAt, Notification.relist, begin_close hn rfl hrun]
  | openDocument | changeDocument | closeDocument => cases hn.1

end Begin

/-- A handler that begins does to the list what its notification does, and one that goes on
nothing. -/
theorem cellsAt_work {h : Hub} {x : Handler} {N : Key} {es : List Errand} (hf : h.store.Filed)
    (hok : (h.work x).2 = .ok es) :
    (h.work x).1.cellsAt N =
      if x.progress = .queued ∧ x.notification.worksOn N =
        true then x.notification.relist (h.cellsAt N)
      else h.cellsAt N := by
  cases hp : x.progress with
  | delivering fs =>
    rw [if_neg (by simp)]
    simp only [cellsAt, (h.work_speaks hp).store]
  | queued =>
    obtain ⟨g, fs, hrun, hwork, _⟩ := work_begins hp hok
    have hsame : (h.work x).1.cellsAt N = g.cellsAt N := by
      rw [hwork]
      exact (g.proceed_speaks fs).chains.cells N
    rw [hsame]
    by_cases habout : x.notification.About N
    · rw [begin_cells hf habout hrun]
      split
      · rfl
      · rename_i hworks
        obtain ⟨uri, hsave⟩ : ∃ uri, x.notification = .saveNotebook uri := by
          by_contra hnone
          exact hworks ⟨rfl, Notification.worksOn_iff.mpr ⟨habout, fun uri he => hnone ⟨uri, he⟩⟩⟩
        rw [hsave]
        rfl
    · rw [begin_cells_elsewhere habout hrun, if_neg
        fun hw => habout (Notification.worksOn_iff.mp hw.2).1]

end Hub

namespace Dispatcher

/-- The list of a notebook is what those of its notifications that have begun made of it; the others
wait in its line, in the order of their arrival. -/
def Relists (N : Key) (ns : List Notification) (d : Dispatcher) : Prop :=
  ∃ begun, ns.filter (·.worksOn N) = begun ++ (d.waitingFor N).filter (·.worksOn N) ∧
    d.hub.cellsAt N = begun.foldl Notification.relist none

namespace Relists

variable {N : Key} {ns : List Notification} {d : Dispatcher} {x : Handler}

/-- A notification gets to the end of its line, if it is one that needs a handler. -/
theorem join (hr : d.Relists N ns) {n : Notification} {k : Key} (hk : Uri.key n.uri = .ok k) :
    (d.join n k).Relists N (ns ++ [n]) := by
  obtain ⟨begun, hns, hcells⟩ := hr
  refine ⟨begun, ?_, hcells⟩
  rw [List.filter_append, hns, List.append_assoc]
  congr 1
  rw [waitingFor_join]
  split
  · simp [List.filter_append]
  · rename_i hlock
    simp [worksOn_of_lock_ne hk hlock]

theorem work (hr : d.Relists N ns) (hs : d.Sound) (ho : d.Orderly) (hx : d.Leads x)
    {es : List Errand} (hok : (d.hub.work x).2 = .ok es) : (d.work x).Relists N ns := by
  obtain ⟨begun, hns, hcells⟩ := hr
  have hstep : (d.work x).hub.cellsAt N = (d.hub.work x).1.cellsAt N := by
    simp only [Hub.cellsAt, store_work]
  by_cases hlock : x.ticket.lock = .notebook N
  · obtain ⟨rest, hline, hq, _, hwait⟩ := standing_of_leads ho hx hlock
    obtain ⟨_, hwait'⟩ := standing_work ho hx hlock hok hline hq
    unfold Relists
    rw [hstep, Hub.cellsAt_work hs.filed hok, hns, hwait, hwait', hcells]
    by_cases hbegins : x.progress = .queued ∧ x.notification.worksOn N = true
    · refine ⟨begun ++ [x.notification], by simp [hbegins], ?_⟩
      rw [if_pos hbegins, List.foldl_append]
      rfl
    · refine ⟨begun, ?_, by rw [if_neg hbegins]⟩
      congr 1
      by_cases hp : x.progress = .queued
      · have hskip : x.notification.worksOn N = false := by simpa [hp] using hbegins
        simp [hp, hskip]
      · simp [hp]
  · -- its notification is then about another notebook, or about none
    have hother : ¬ (x.progress = .queued ∧ x.notification.worksOn N = true) := by
      rintro ⟨_, hw⟩
      exact hlock (hs.lock_of_about hx.mem (Notification.worksOn_iff.mp hw).1)
    refine ⟨begun, ?_, ?_⟩
    · rw [hns]
      simp only [waitingFor, lineAt_work ho hx hlock]
    · rw [hstep, Hub.cellsAt_work hs.filed hok, if_neg hother, hcells]

theorem step (hr : d.Relists N ns) (hs : d.Sound) (ho : d.Orderly) {e : Event} (he : e ≠ .shutdown)
    (hu : (d.step e).Unfailing) : (d.step e).Relists N (ns ++ arrivals [e]) := by
  have hstep := step_happens ho e
  generalize d.step e = d' at hstep hu ⊢
  cases hstep with
  | save uri =>
    obtain ⟨begun, hns, hcells⟩ := hr
    refine ⟨begun, ?_, hcells⟩
    rw [List.filter_append, hns]
    simp [arrivals, Notification.worksOn, waitingFor, lineAt]
  | refuse hn hk =>
    rename_i n err
    have hfault := hu (d.arrived, some (.uri err)) (by simp [refuse])
    cases hfault
  | wait hn hk => exact hr.join hk
  | begin hn hk hx =>
    obtain ⟨es, hok⟩ := hu.work
    exact (hr.join hk).work (hs.join hk) (ho.join _ _) hx hok
  | idle hid => simpa [arrivals] using hr
  | resume hx =>
    obtain ⟨es, hok⟩ := hu.work
    simpa [arrivals] using hr.work hs ho hx hok
  | shutdown => exact absurd rfl he

theorem run (hr : d.Relists N ns) (hs : d.Sound) (ho : d.Orderly) {events : List Event}
    (he : ∀ e ∈ events, e ≠ .shutdown) (hu : (d.run events).Unfailing) :
    (d.run events).Relists N (ns ++ arrivals events) := by
  induction events generalizing d ns with
  | nil => simpa [arrivals, Dispatcher.run] using hr
  | cons e events ih =>
    have hstep := hr.step hs ho (he e (by simp)) (hu.first ho)
    rw [arrivals_cons, ← List.append_assoc]
    exact ih hstep (hs.step ho e) (ho.step e) (fun e' h => he e' (List.mem_cons_of_mem e h)) hu

/-- When no handler is about the notebook, all of its notifications have begun. -/
theorem settled (hr : d.Relists N ns) (hended : ∀ x ∈ d.handlers, ¬ x.notification.About N) :
    d.hub.cellsAt N = (ns.filter (·.worksOn N)).foldl Notification.relist none := by
  obtain ⟨begun, hns, hcells⟩ := hr
  have hnone : (d.waitingFor N).filter (·.worksOn N) = [] := by
    rw [List.filter_eq_nil_iff]
    intro n hn hw
    obtain ⟨x, hx, rfl⟩ := List.mem_map.mp hn
    exact hended x (mem_lineAt.mp (List.mem_filter.mp hx).1).1 (Notification.worksOn_iff.mp hw).1
  rw [hns, hnone, List.append_nil, hcells]

end Relists
end Dispatcher

/-- The list that notifications of one notebook leave is that of the last opening, spliced by those
behind it; no closing is among these. -/
theorem foldl_relist {N : Key} {ns : List Notification} (hns : ∀ n ∈ ns, n.worksOn N = true)
    {ds : List String} (hds : ns.foldl Notification.relist none = some ds) :
    ∃ before item items after, ns = before ++ .openNotebook item items :: after ∧
      (∀ n ∈ after, n.Leaves N) ∧
      ds = (after.filterMap (·.spliceOf N)).foldl (fun ds s => s.respliced ds)
        (item.cells.map Cell.document) := by
  induction ns using List.reverseRecOn generalizing ds with
  | nil => cases hds
  | append_singleton ns n ih =>
    have hbefore := fun m hm => hns m (List.mem_append_left [n] hm)
    obtain ⟨habout, hsave⟩ := Notification.worksOn_iff.mp (hns n (by simp))
    rw [List.foldl_append, List.foldl_cons, List.foldl_nil] at hds
    cases n with
    | openNotebook item items =>
      obtain rfl := Option.some.inj hds
      exact ⟨ns, item, items, [], rfl, by simp, rfl⟩
    | closeNotebook uri cells => cases hds
    | saveNotebook uri => exact absurd rfl (hsave uri)
    | openDocument | changeDocument | closeDocument => cases habout.1
    | changeNotebook uri version change =>
      have hkey : Uri.key uri = .ok N := habout.2
      obtain ⟨es, hes, hlast⟩ : ∃ es, ns.foldl Notification.relist none = some es ∧
          ds = (change.structural.toList).foldl (fun ds s => s.respliced ds) es := by
        cases hs : change.structural with
        | none => exact ⟨ds, by simpa [Notification.relist, hs] using hds, rfl⟩
        | some s =>
          simp only [Notification.relist, hs] at hds
          obtain ⟨es, hes, rfl⟩ := Option.map_eq_some_iff.mp hds
          exact ⟨es, hes, rfl⟩
      obtain ⟨before, item, items, after, rfl, hafter, rfl⟩ := ih hbefore hes
      have hleaves : (Notification.changeNotebook uri version change).Leaves N := by
        constructor
        · rintro ⟨_, _, he, _⟩
          cases he
        · rintro ⟨_, hclose⟩
          cases hclose
      refine ⟨before, item, items, after ++ [.changeNotebook uri version change], by simp, ?_, ?_⟩
      · intro m hm
        rcases List.mem_append.mp hm with hm | hm
        · exact hafter m hm
        · obtain rfl := List.mem_singleton.mp hm
          exact hleaves
      · rw [hlast, List.filterMap_append, List.foldl_append]
        cases hs : change.structural <;> simp [Notification.spliceOf, hkey, hs]

namespace Dispatcher

theorem relists_fresh (settings : Settings) (route : Route) (roster : Roster) (N : Key) :
    (fresh settings route roster).Relists N [] :=
  ⟨[], by simp [waitingFor, lineAt, fresh, start], rfl⟩

/-- However handlers are held up, an open notebook that no handler is about has the cells that it
was last opened with, spliced by all of its structural changes that arrived since, in the order of
their arrival. -/
theorem cells_replay_splices {settings : Settings} {route : Route} {roster : Roster}
    {events : List Event} {d : Dispatcher} (hd : d = (fresh settings route roster).run events)
    (hevents : ∀ e ∈ events, e ≠ .shutdown) (hgood : d.Unfailing) {N : Key}
    (hended : ∀ x ∈ d.handlers, ¬ x.notification.About N) {notebook : Notebook}
    (hn : d.hub.store.get? N = some notebook) :
    ∃ before item items after, arrivals events = before ++ .openNotebook item items :: after ∧
      Uri.key item.uri = .ok N ∧ (∀ n ∈ after, n.Leaves N) ∧
      notebook.documents = (after.filterMap (·.spliceOf N)).foldl (fun ds s => s.respliced ds)
        (item.cells.map Cell.document) := by
  subst hd
  have hrun := (relists_fresh settings route roster N).run (sound_fresh settings route roster)
    (orderly_fresh settings route roster) hevents hgood
  have hcells := hrun.settled hended
  rw [List.nil_append, Hub.cellsAt, hn, Option.map_some] at hcells
  obtain ⟨bs, item, items, as, hfilter, hafter, hdocuments⟩ :=
    foldl_relist (fun n hn => (List.mem_filter.mp hn).2) hcells.symm
  obtain ⟨front, back, harrivals, _, hback⟩ := List.filter_eq_append_iff.mp hfilter
  obtain ⟨gap, after, rfl, hgap, hopening, hlast⟩ := List.filter_eq_cons_iff.mp hback
  refine ⟨front ++ gap, item, items, after, by simp [harrivals], ?_, ?_, ?_⟩
  · exact (Notification.worksOn_iff.mp hopening).1.2
  · intro n hn
    by_cases hw : n.worksOn N = true
    · exact hafter n (hlast ▸ List.mem_filter.mpr ⟨hn, hw⟩)
    · exact Notification.leaves_of_not_worksOn hw
  · rw [hdocuments, ← hlast, Notification.filterMap_spliceOf_filter]

def putIn (start : Nat) (document : String) : Notification :=
  .changeNotebook "nb:1" 2 ⟨none, some ⟨start, 0, [⟨.code, document, none, none⟩],
    [⟨document, .unnamed, 1, ""⟩], []⟩, some [⟨.markup, "c:a", none, none⟩], none⟩

/-- A notebook is opened, closed, changed while it is closed, and opened again, all while the first
opening is at a lookup; behind that one cell is put in beyond the end, a document is opened by
itself, and one cell is put in between. -/
def reopenedAndSpliced : List Event :=
  [.arrive (.openNotebook ⟨"nb:1", "t", 1, none, [⟨.code, "c:a", none, none⟩]⟩
    [⟨"c:a", .unnamed, 1, ""⟩]),
    .arrive (.closeNotebook "nb:1" ["c:a"]), .arrive (putIn 0 "c:x"),
    .arrive (.openNotebook ⟨"nb:1", "t", 1, none, [⟨.code, "c:a", none, none⟩]⟩
      [⟨"c:a", .unnamed, 1, ""⟩]),
    .arrive (putIn 9 "c:b"), .arrive (.openDocument ⟨"c:a", .unnamed, 2, ""⟩),
      .arrive (putIn 1 "c:c"),
    .resume 0, .resume 1, .resume 1, .resume 2, .resume 3, .resume 3, .resume 4,
      .resume 4, .resume 5,
    .resume 5, .resume 6, .resume 6, .resume 6, .resume 6, .resume 6]

theorem cells_replay_splices_reopenedAndSpliced :
    ∃ notebook,
      ((fresh {} .registry (.start true)).run reopenedAndSpliced).hub.store.get? ⟨"nb:1"⟩ =
        some notebook ∧ notebook.documents = ["c:a", "c:c", "c:b"] ∧
      ∃ before item items after, arrivals reopenedAndSpliced =
        before ++ .openNotebook item items :: after ∧
        (∀ n ∈ after, n.Leaves ⟨"nb:1"⟩) ∧
        notebook.documents =
          (after.filterMap (·.spliceOf ⟨"nb:1"⟩)).foldl (fun ds s => s.respliced ds)
          (item.cells.map Cell.document) := by
  have hdocuments : ((((fresh {} .registry (.start true)).run reopenedAndSpliced).hub.store.get?
      ⟨"nb:1"⟩).map Notebook.documents) = some ["c:a", "c:c", "c:b"] := by decide +kernel
  have hgood : ((fresh {} .registry (.start true)).run reopenedAndSpliced).Unfailing := by
    unfold Unfailing
    decide +kernel
  have hidle : ((fresh {} .registry (.start true)).run reopenedAndSpliced).isIdle = true := by
    decide +kernel
  obtain ⟨notebook, hn, hcells⟩ := Option.map_eq_some_iff.mp hdocuments
  obtain ⟨before, item, items, after, harrivals, _, hafter, hsplices⟩ :=
    cells_replay_splices rfl (by simp [reopenedAndSpliced]) hgood
      (by simp [List.isEmpty_iff.mp hidle]) hn
  exact ⟨notebook, hn, hcells, before, item, items, after, harrivals, hafter, hsplices⟩

end Dispatcher
end NotebookHub
