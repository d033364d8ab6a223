import NotebookHub.Proofs.Chaining
import NotebookHub.Proofs.DueLinks

namespace NotebookHub

namespace Notification

def Names (n : Notification) (k : Key) : Prop := ∃ uri ∈ n.touched ++ n.listed, Uri.key uri = .ok k

end Notification

def Apart (ns : List Notification) : Prop :=
  ∀ n ∈ ns, ∀ m ∈ ns, ∀ k, n.Names k → m.Names k → Uri.key n.uri = Uri.key m.uri

def ListedBy (ns : List Notification) (N : Key) (document : String) : Prop :=
  ∃ n ∈ ns, n.About N ∧ document ∈ n.listed

theorem Apart.separate {ns : List Notification} (ha : Apart ns) : Dispatcher.Separate ns := by
  rintro n hn m hm k ⟨u, hu, hku⟩ ⟨v, hv, hkv⟩
  exact ha n hn m hm k ⟨u, List.mem_append_left _ hu, hku⟩ ⟨v, List.mem_append_left _ hv, hkv⟩

theorem Apart.not_touches {ns : List Notification} (ha : Apart ns) {N : Key} {document : String}
    {k : Key} (hd : ListedBy ns N document) (hk : Uri.key document = .ok k) {n : Notification}
    (hn : n ∈ ns) (hnotebook : n.isNotebook = true) (hN : ¬ n.About N) : ¬ n.Touches k := by
  rintro ⟨u, hu, hku⟩
  obtain ⟨m, hm, hM, hlisted⟩ := hd
  have hkeys := ha n hn m hm k ⟨u, List.mem_append_left _ hu, hku⟩
    ⟨document, List.mem_append_right _ hlisted, hk⟩
  exact hN ⟨hnotebook, hkeys.trans hM.2⟩

theorem Apart.not_listed {ns : List Notification} (ha : Apart ns) {N M : Key} {document : String}
    {k : Key} (hd : ListedBy ns N document) (hk : Uri.key document = .ok k) (hM : M ≠ N)
    {other : String} (ho : ListedBy ns M other) : Uri.key other ≠ .ok k := by
  intro hother
  obtain ⟨n, hn, hN, hlisted⟩ := hd
  obtain ⟨m, hm, habout, hlisted'⟩ := ho
  have hkeys := ha m hm n hn k ⟨other, List.mem_append_right _ hlisted', hother⟩
    ⟨document, List.mem_append_right _ hlisted, hk⟩
  rw [habout.2, hN.2] at hkeys
  exact hM (Except.ok.inj hkeys)

namespace Dispatcher

/-- What is under way came from `ns`, and so did the cell lists. -/
structure CameFrom (ns : List Notification) (d : Dispatcher) : Prop where
  orderly : d.Orderly
  sound : d.Sound
  arrived : ∀ x ∈ d.handlers, x.notification ∈ ns ∧ x.notification.isNotebook = true
  cells : ∀ M, Hub.CellsWithin (· = M) (ListedBy ns M) d.hub

namespace CameFrom

variable {ns : List Notification} {d : Dispatcher} {x : Handler}

/-- A handler is about one notebook, and works under its lock. -/
theorem about (hc : d.CameFrom ns) (hx : x ∈ d.handlers) :
    ∃ M, x.notification.About M ∧ x.ticket.lock = .notebook M := by
  obtain ⟨M, hM, hlock, _⟩ := hc.sound.ticket x hx
  have hnotebook := (hc.arrived x hx).2
  exact ⟨M, ⟨hnotebook, hM⟩, hlock hnotebook⟩

theorem join (hc : d.CameFrom ns) {n : Notification} {k : Key} (hk : Uri.key n.uri = .ok k)
    (hn : n ∈ ns) (hnotebook : n.isNotebook = true) : (d.join n k).CameFrom ns where
  orderly := hc.orderly.join n k
  sound := hc.sound.join hk
  arrived y hy := by
    rcases List.mem_append.mp hy with hy | hy
    · exact hc.arrived y hy
    · obtain rfl := List.mem_singleton.mp hy
      exact ⟨hn, hnotebook⟩
  cells := hc.cells

theorem work (hc : d.CameFrom ns) (hx : d.Leads x) : (d.work x).CameFrom ns where
  orderly := hc.orderly.work hx
  sound := hc.sound.work hc.orderly hx
  arrived y hy := by
    rcases mem_work hy with ⟨hy, _⟩ | ⟨_, z, hz, _, e, es, rfl, _⟩
    · exact hc.arrived y hy
    · exact hc.arrived z hz
  cells M := by
    obtain ⟨hmem, _⟩ := hc.arrived x hx.mem
    have hbefore := hc.cells M
    intro k n hk hn
    subst hk
    rw [Dispatcher.store_work] at hn
    by_cases hwork : x.progress = .queued ∧ x.notification.About k
    · obtain ⟨hp, habout⟩ := hwork
      have hwithin : Hub.CellsWithin x.notification.About (ListedBy ns k) d.hub := by
        intro k' n' hk' hn'
        obtain rfl : k = k' := Except.ok.inj (habout.2.symm.trans hk'.2)
        exact hbefore k n' rfl hn'
      have hlisted : ∀ doc ∈ x.notification.listed, ListedBy ns k doc :=
        fun doc hdoc => ⟨x.notification, hmem, habout, hdoc⟩
      exact (d.hub.work_registers hp hlisted).cells hwithin k n habout hn
    · rw [Hub.store_work d.hub x fun hp habout => hwork ⟨hp, habout⟩] at hn
      exact hbefore k n rfl hn

theorem step (hc : d.CameFrom ns) {e : Event} (he : e.isOfNotebooks = true)
    (hn : ∀ n, e = .arrive n → n ∈ ns) : (d.step e).CameFrom ns := by
  have hstep := step_happens hc.orderly e
  have ho := hc.orderly.step e
  have hs := hc.sound.step hc.orderly e
  generalize d.step e = d' at ho hs hstep ⊢
  cases hstep with
  | save uri => exact ⟨ho, hs, hc.arrived, hc.cells⟩
  | refuse hsave hk => exact ⟨ho, hs, hc.arrived, hc.cells⟩
  | wait hsave hk => exact hc.join hk (hn _ rfl) he
  | begin hsave hk hx => exact (hc.join hk (hn _ rfl) he).work hx
  | idle hid => exact hc
  | resume hx => exact hc.work hx
  | shutdown => cases he

end CameFrom

/-- The chain of a notebook is left alone, as far as the documents `K` show it. -/
structure Quiet (N : Key) (K : Key → Prop) (d d' : Dispatcher) : Prop where
  cells : d'.hub.cellsAt N = d.hub.cellsAt N
  predecessors : ∀ k, K k → d'.hub.predecessorAt k = d.hub.predecessorAt k
  current : d.hub.cellsAt N ≠ none → d'.hub.passes.current.get? N = d.hub.passes.current.get? N

theorem Quiet.refl {N : Key} {K : Key → Prop} (d : Dispatcher) : Quiet N K d d :=
  ⟨rfl, fun _ _ => rfl, fun _ => rfl⟩

theorem Quiet.trans {N : Key} {K : Key → Prop} {d d' d'' : Dispatcher} (q : Quiet N K d d')
    (q' : Quiet N K d' d'') : Quiet N K d d'' where
  cells := q'.cells.trans q.cells
  predecessors k hk := (q'.predecessors k hk).trans (q.predecessors k hk)
  current hopen := (q'.current (by rwa [q.cells])).trans (q.current hopen)

def KeyedBy (ns : List Notification) (N k : Key) : Prop :=
  ∃ document, ListedBy ns N document ∧ Uri.key document = .ok k

section Quiet

variable {ns : List Notification} {N : Key} {d : Dispatcher} {x : Handler}

theorem current_join {n : Notification} {k : Key} (hk : k = N → n.isPlain = true) :
    (d.join n k).hub.passes.current.get? N = d.hub.passes.current.get? N := by
  simp only [Dispatcher.join, Hub.passesAt]
  by_cases hN : k = N
  · have hplain := hk hN
    simp only [Notification.isPlain, Bool.and_eq_true, Bool.not_eq_true'] at hplain
    simp [hplain.1, hplain.2]
  · split
    · simp [Passes.supersede, hN]
    · split
      · simp [Passes.forget, hN]
      · rfl

theorem quiet_join {K : Key → Prop} {n : Notification} {k : Key} (hk : k = N → n.isPlain = true) :
    Quiet N K d (d.join n k) :=
  ⟨rfl, fun _ _ => rfl, fun _ => current_join hk⟩

/-- What a handler leaves of the passes, if it is not for a notebook that is closed. -/
theorem current_work_of_open (hlock : ∀ k, x.ticket.lock = .notebook k → k = N →
      (d.work x).hub.store.get? k ≠ none) :
    (d.work x).hub.passes.current.get? N = d.hub.passes.current.get? N := by
  rcases d.passes_work x with he | ⟨_, _, _, k, _, hl, hnone, he⟩
  · rw [he]
  · rw [he]
    have hne : k ≠ N := by
      intro hk
      rw [← Dispatcher.store_work] at hnone
      exact hlock k hl hk hnone
    simp [Passes.forget, hne]

/-- Handlers of other notebooks do not come near the chain. -/
theorem quiet_work_other (hc : d.CameFrom ns) (ha : Apart ns) (hx : d.Leads x)
    (hN : ¬ x.notification.About N) : Quiet N (KeyedBy ns N) d (d.work x) := by
  obtain ⟨hmem, hnotebook⟩ := hc.arrived x hx.mem
  obtain ⟨M, hM, hlock⟩ := hc.about hx.mem
  have hne : M ≠ N := fun he => hN (he ▸ hM)
  obtain ⟨passes, hhub⟩ := work_hub d x
  refine ⟨?_, fun k hk => ?_, fun _ => ?_⟩
  · simp only [Hub.cellsAt, Dispatcher.store_work, Hub.store_work d.hub x fun _ => hN]
  · obtain ⟨document, hdocument, hkey⟩ := hk
    have htouches := ha.not_touches hdocument hkey hmem hnotebook hN
    have hwithin : Hub.CellsWithin x.notification.About (ListedBy ns M) d.hub := by
      intro k' n' hk' hn'
      obtain rfl : M = k' := Except.ok.inj (hM.2.symm.trans hk'.2)
      exact hc.cells M M n' rfl hn'
    have hlisted : ∀ doc ∈ x.notification.listed, ListedBy ns M doc :=
      fun doc hdoc => ⟨x.notification, hmem, hM, hdoc⟩
    have hothers : ∀ doc, ListedBy ns M doc → Uri.key doc ≠ .ok k :=
      fun doc hdoc => ha.not_listed hdocument hkey hne hdoc
    have hsame : (d.hub.work x).1.documents.get? k = d.hub.documents.get? k := by
      cases hp : x.progress with
      | queued =>
        exact (d.hub.work_registers hp hlisted).links hc.sound.filed hwithin k htouches hothers
      | delivering es => rw [(d.hub.work_speaks hp).documents]
    rw [hhub]
    simp only [Hub.predecessorAt, hsame]
  · apply current_work_of_open
    intro k hl hk
    rw [hlock] at hl
    exact absurd ((LockKey.notebook.inj hl).trans hk) hne

/-- So do the notebook's own, when they only have plain changes to register. -/
theorem quiet_work_own {K : Key → Prop} (hx : x.notification.About N)
    (hplain : x.progress = .queued → x.notification.isPlain = true) (hu : (d.work x).Unfailing) :
    Quiet N K d (d.work x) := by
  have hchains : Hub.SameChains d.hub (d.hub.work x).1 := by
    obtain ⟨es, hok⟩ := hu.work
    cases hp : x.progress with
    | queued =>
      obtain ⟨g, fs, hrun, hwork, _⟩ := Hub.work_begins hp hok
      rw [hwork]
      exact (Hub.begin_plain hx.1 (hplain hp) hrun).trans (g.proceed_speaks fs).chains
    | delivering es => exact (d.hub.work_speaks hp).chains
  obtain ⟨passes, hhub⟩ := work_hub d x
  have hcells : (d.work x).hub.cellsAt N = d.hub.cellsAt N := by
    rw [hhub]
    exact hchains.cells N
  refine ⟨hcells, fun k _ => ?_, fun hopen => ?_⟩
  · rw [hhub]
    exact hchains.predecessors k
  · apply current_work_of_open
    intro k _ hk hnone
    subst hk
    rw [← hcells] at hopen
    exact hopen (by simp [Hub.cellsAt, hnone])

end Quiet

def Calm (d : Dispatcher) (N : Key) : Prop :=
  ∀ x ∈ d.handlers, x.notification.About N → x.progress = .queued → x.notification.isPlain = true

section Calm

variable {ns : List Notification} {N : Key} {d : Dispatcher}

theorem Calm.join (hcalm : d.Calm N) {n : Notification} {k : Key}
    (hn : n.About N → n.isPlain = true) :
    (d.join n k).Calm N := by
  intro y hy habout hp
  rcases List.mem_append.mp hy with hy | hy
  · exact hcalm y hy habout hp
  · obtain rfl := List.mem_singleton.mp hy
    exact hn habout

theorem Calm.work (hcalm : d.Calm N) (x : Handler) : (d.work x).Calm N := by
  intro y hy habout hp
  rcases mem_work hy with ⟨hy, _⟩ | ⟨_, z, _, _, e, es, rfl, _⟩
  · exact hcalm y hy habout hp
  · cases hp

theorem Calm.quiet_work (hcalm : d.Calm N) (hc : d.CameFrom ns) (ha : Apart ns) {x : Handler}
    (hx : d.Leads x) (hu : (d.work x).Unfailing) : Quiet N (KeyedBy ns N) d (d.work x) := by
  by_cases hN : x.notification.About N
  · exact quiet_work_own hN (hcalm x hx.mem hN) hu
  · exact quiet_work_other hc ha hx hN

/-- While all that comes for a notebook is plain, every step leaves its chain alone. -/
theorem Calm.step (hcalm : d.Calm N) (hc : d.CameFrom ns) (ha : Apart ns) {e : Event}
    (he : e.isOfNotebooks = true)
    (hn : ∀ n, e = .arrive n → n ∈ ns ∧ (n.About N → n.isPlain = true))
    (hu : (d.step e).Unfailing) : (d.step e).Calm N ∧ Quiet N (KeyedBy ns N) d (d.step e) := by
  have hstep := step_happens hc.orderly e
  generalize d.step e = d' at hstep hu ⊢
  cases hstep with
  | save uri => exact ⟨hcalm, ⟨rfl, fun _ _ => rfl, fun _ => rfl⟩⟩
  | refuse hsave hk => exact ⟨hcalm, ⟨rfl, fun _ _ => rfl, fun _ => rfl⟩⟩
  | wait hsave hk =>
    obtain ⟨_, hplain⟩ := hn _ rfl
    exact ⟨hcalm.join hplain, quiet_join fun hN => hplain ⟨he, hN ▸ hk⟩⟩
  | @begin n k hsave hk hx =>
    obtain ⟨hmem, hplain⟩ := hn n rfl
    have hjoined : (d.join n k).Calm N := hcalm.join hplain
    have hquiet : Quiet N (KeyedBy ns N) d (d.join n k) := quiet_join fun hN => hplain ⟨he, hN ▸ hk⟩
    exact ⟨hjoined.work _, hquiet.trans (hjoined.quiet_work (hc.join hk hmem he) ha hx hu)⟩
  | idle hid => exact ⟨hcalm, .refl d⟩
  | resume hx => exact ⟨hcalm.work _, hcalm.quiet_work hc ha hx hu⟩
  | shutdown => cases he

end Calm

def lapses (d : Dispatcher) (N : Key) : Event → Bool
  | .resume id =>
    (d.handler? id).any (fun x => x.notification.isChange && x.ticket.lock = .notebook N) &&
      ((d.step (.resume id)).handler? id).isNone && ((d.step (.resume id)).hub.store.get? N).isNone
  | _ => false

def lapsed (d : Dispatcher) (N : Key) : List Event → Bool
  | [] => false
  | e :: events => d.lapses N e || (d.step e).lapsed N events

structure Waiting (d : Dispatcher) (N : Key) (x : Handler) : Prop where
  mem : x ∈ d.handlers
  queued : x.progress = .queued
  about : x.notification.About N
  behind : ∀ y ∈ d.handlers, y.notification.About N → x.id < y.id → y.notification.isPlain = true

section Waiting

variable {ns : List Notification} {N : Key} {d : Dispatcher} {x : Handler}

/-- The first of a line came before the others. -/
theorem Leads.le (ho : d.Orderly) (hx : d.Leads x) {y : Handler} (hy : y ∈ d.handlers)
    (hlock : y.ticket.lock = x.ticket.lock) : x.id ≤ y.id := by
  obtain ⟨rest, hline, _⟩ := lineAt_of_leads ho hx
  have hmem : y ∈ d.lineAt x.ticket.lock := mem_lineAt.mpr ⟨hy, hlock⟩
  have hids : (d.lineAt x.ticket.lock).Pairwise (·.id < ·.id) := ho.ids.filter _
  rw [hline] at hmem hids
  rcases List.mem_cons.mp hmem with rfl | hmem
  · exact Nat.le_refl _
  · exact Nat.le_of_lt ((List.pairwise_cons.mp hids).1 y hmem)

/-- The notebook's token is lost just when a change that finds it closed ends. -/
theorem current_work_eq (ho : d.Orderly) (hx : d.Leads x) :
    (d.work x).hub.passes.current.get? N =
      if d.lapses N (.resume x.id) then none else d.hub.passes.current.get? N := by
  have hpasses := d.hub.passes_work x
  have hlapses : d.lapses N (.resume x.id) =
      ((x.notification.isChange && x.ticket.lock = .notebook N) &&
        ((d.work x).handler? x.id).isNone && ((d.work x).hub.store.get? N).isNone) := by
    simp [lapses, ho.handler?_eq hx.mem, step_resume ho hx]
  rw [hlapses]
  rcases work_cases d x with ⟨fault, he, _⟩ | ⟨e, es, he, _⟩
  · have hgone : (d.work x).handler? x.id = none := by
      apply handler?_eq_none
      intro y hy
      rw [he] at hy
      simpa using (List.mem_filter.mp hy).2
    rw [hgone, he]
    simp only [conclude, Hub.conclude_eq]
    unfold Hub.passesAfter
    split
    · rename_i uri version change k hn hl
      rw [hn, hl]
      by_cases hk : k = N
      · subst hk
        cases hopen : (d.hub.work x).1.store.get? k
          <;> simp [Notification.isChange, hpasses, Passes.forget]
      · cases hopen : (d.hub.work x).1.store.get? k <;> simp [hk, hpasses, Passes.forget]
    · rename_i hnot
      have hno : (x.notification.isChange && decide (x.ticket.lock = .notebook N)) = false := by
        cases hn : x.notification with
        | changeNotebook uri version change =>
          have hlock : x.ticket.lock ≠ .notebook N := fun hl => hnot uri version change N hn hl
          simp [hlock]
        | _ => rfl
      simp [hno, hpasses]
  · have hmem : { x with progress := .delivering (e :: es) } ∈ (d.work x).handlers := by
      rw [he]
      exact List.mem_map.mpr ⟨x, hx.mem, if_pos rfl⟩
    have hstays : ((d.work x).handler? x.id).isNone = false :=
      congrArg Option.isNone ((ho.work hx).handler?_eq hmem)
    rw [hstays, he]
    simp [leave, hpasses]

theorem Waiting.work (hw : d.Waiting N x) {y : Handler} (hid : y.id ≠ x.id) :
    (d.work y).Waiting N x where
  mem := mem_work_of_ne hw.mem (Ne.symm hid)
  queued := hw.queued
  about := hw.about
  behind z hz habout hless := by
    rcases mem_work hz with ⟨hz, _⟩ | ⟨_, z', hz', _, e, es, rfl, _⟩
    · exact hw.behind z hz habout hless
    · exact hw.behind z' hz' habout hless

theorem Waiting.join (hw : d.Waiting N x) {n : Notification} {k : Key}
    (hn : n.About N → n.isPlain = true) : (d.join n k).Waiting N x where
  mem := List.mem_append_left _ hw.mem
  queued := hw.queued
  about := hw.about
  behind y hy habout hless := by
    rcases List.mem_append.mp hy with hy | hy
    · exact hw.behind y hy habout hless
    · obtain rfl := List.mem_singleton.mp hy
      exact hn habout

/-- While a handler waits, only plain notifications join its line, and its token lasts unless a
change that finds the notebook closed ends. -/
theorem Waiting.step (hw : d.Waiting N x) (hc : d.CameFrom ns) {e : Event}
    (he : e.isOfNotebooks = true)
    (hn : ∀ n, e = .arrive n → n ∈ ns ∧ (n.About N → n.isPlain = true))
    (hnot : ¬ (d.Leads x ∧ e = .resume x.id)) :
    (d.step e).Waiting N x ∧ d.linksIn x.id e = [] ∧
      (d.step e).hub.passes.current.get? N =
        if d.lapses N e then none else d.hub.passes.current.get? N := by
  have ho := hc.orderly
  have hless := ho.arrived x hw.mem
  have hlinks := (owedBy_step_other ho hless e fun y hy hid he => by
    obtain rfl := ho.eq_of_id hy.mem hw.mem hid
    exact hnot ⟨hy, he⟩).2
  have hstep := step_happens ho e
  suffices hgoal : (d.step e).Waiting N x ∧ (d.step e).hub.passes.current.get? N =
      if d.lapses N e then none else d.hub.passes.current.get? N by
    exact ⟨hgoal.1, hlinks, hgoal.2⟩
  generalize hd : d.step e = d' at hstep
  cases hstep with
  | save uri => exact ⟨⟨hw.mem, hw.queued, hw.about, hw.behind⟩, rfl⟩
  | refuse hsave hk => exact ⟨⟨hw.mem, hw.queued, hw.about, hw.behind⟩, rfl⟩
  | wait hsave hk =>
    obtain ⟨_, hplain⟩ := hn _ rfl
    exact ⟨hw.join hplain, current_join fun hN => hplain ⟨he, hN ▸ hk⟩⟩
  | @begin n k hsave hk hy =>
    obtain ⟨_, hplain⟩ := hn n rfl
    have hjoined : (d.join n k).Waiting N x := hw.join hplain
    have hcurrent : (d.join n k).hub.passes.current.get? N = d.hub.passes.current.get? N :=
      current_join fun hN => hplain ⟨he, hN ▸ hk⟩
    refine ⟨hjoined.work (Nat.ne_of_gt hless), ?_⟩
    refine (current_work_of_open fun k' hl hk' => ?_).trans hcurrent
    obtain ⟨M, hM, hlock⟩ := hc.about hw.mem
    obtain rfl : N = M := Except.ok.inj (hw.about.2.symm.trans hM.2)
    have hle := Leads.le (ho.join n k) hy hjoined.mem (by rw [hlock, hl, hk'])
    exact absurd hless (Nat.not_lt.mpr hle)
  | @idle id hid =>
    have hlapses : d.lapses N (.resume id) = false := by
      cases hf : d.handler? id <;> simp [lapses, hd, hf]
    rw [hlapses]
    exact ⟨hw, rfl⟩
  | @resume y hy =>
    have hne : y.id ≠ x.id := fun hid => hnot ⟨ho.eq_of_id hy.mem hw.mem hid ▸ hy, by rw [hid]⟩
    exact ⟨hw.work hne, current_work_eq ho hy⟩
  | shutdown => cases he

/-- Once it works, all that waits for its notebook is plain. -/
theorem Waiting.calm_work (hw : d.Waiting N x) (hc : d.CameFrom ns) (hx : d.Leads x) :
    (d.work x).Calm N := by
  intro y hy habout hp
  rcases mem_work hy with ⟨hy, hid⟩ | ⟨_, z, _, _, e, es, rfl, _⟩
  · obtain ⟨M, hM, hlock⟩ := hc.about hw.mem
    obtain ⟨M', hM', hlock'⟩ := hc.about hy
    have hsame : y.ticket.lock = x.ticket.lock := by
      rw [hlock, hlock', Except.ok.inj (hM.2.symm.trans hw.about.2),
        Except.ok.inj (hM'.2.symm.trans habout.2)]
    have hle := Leads.le hc.orderly hx hy hsame
    exact hw.behind y hy habout (Nat.lt_of_le_of_ne hle (Ne.symm hid))
  · cases hp

/-- What it leaves when it begins: under a current token the cells are chained and their links are
due; else no link is due. -/
theorem Waiting.chains_work (hw : d.Waiting N x) (hc : d.CameFrom ns) (hx : d.Leads x)
    (hu : (d.work x).Unfailing) {uri : String} {version : Int} {change : NotebookChange}
    {token : Token} (hn : x.notification = .changeNotebook uri version change)
    (hs : change.structural.isSome = true) (htoken : x.ticket.token = some token) {ds : List String}
    (hds : (d.work x).hub.cellsAt N = some ds) (hkeys : (ds.map Uri.key).Nodup) :
    (d.hub.passes.isCurrent token = true → (d.work x).hub.Chained ds ∧
      ((d.work x).dueBy x.id).map Link.pair = chainLinks ds ∧
      ∀ l ∈ (d.work x).dueBy x.id, l.cell.Sound) ∧
    (d.hub.passes.isCurrent token = false → (d.work x).dueBy x.id = []) := by
  obtain ⟨passes, hhub⟩ := work_hub d x
  obtain ⟨es, hok⟩ := hu.work
  have hopen : ∀ k, x.ticket.lock = .notebook k → (d.hub.work x).1.store.get? k ≠ none := by
    intro k hl hnone
    obtain ⟨M, hM, hlock⟩ := hc.about hx.mem
    obtain rfl : M = k := LockKey.notebook.inj (hlock.symm.trans hl)
    obtain rfl : N = M := Except.ok.inj (hw.about.2.symm.trans hM.2)
    rw [hhub] at hds
    simp [Hub.cellsAt, hnone] at hds
  have hpasses : (d.work x).hub.passes = d.hub.passes := by
    rcases d.passes_work x with he | ⟨_, _, _, k, _, hl, hnone, _⟩
    · exact he
    · exact absurd hnone (hopen k hl)
  have hdue : (d.work x).dueBy x.id = d.hub.dueLinks es := by
    rw [dueBy, owedBy_work hc.orderly hx hok]
    exact Hub.dueLinks_congr fun _ _ => by rw [hpasses]
  obtain ⟨g, fs, hrun, hwork, rfl⟩ := Hub.work_begins hw.queued hok
  rw [hn, htoken] at hrun
  obtain ⟨journal, he⟩ := g.proceed_eq fs
  rw [hwork, he] at hhub
  have hk : Uri.key uri = .ok N := by
    have habout := hw.about.2
    rw [hn] at habout
    exact habout
  have hcells : g.cellsAt N = some ds := by
    rw [hhub] at hds
    exact hds
  obtain ⟨hcurrent, hstale⟩ := Hub.begin_structural hk hc.sound.filed hs hrun hcells hkeys
  rw [hdue, Hub.dueLinks_proceed]
  constructor
  · intro hcur
    obtain ⟨pass, hpasses, rfl, hpairs, hsound, hchained⟩ := hcurrent hcur
    have hlinks : d.hub.dueLinks fs = pass.links := by simp [Hub.dueLinks, hpasses, hcur]
    rw [hlinks, hhub]
    exact ⟨hchained, hpairs, hsound⟩
  · intro hcur
    simp [Hub.dueLinks, hstale hcur]

end Waiting

/-- An event brings nothing but plain notifications to the notebook, and nothing that is not in
`ns`. -/
def Brings (ns : List Notification) (N : Key) (e : Event) : Prop :=
  e.isOfNotebooks = true ∧ ∀ n, e = .arrive n → n ∈ ns ∧ (n.About N → n.isPlain = true)

def Begun (d : Dispatcher) (N : Key) (id : Nat) : Prop :=
  id < d.arrived ∧ ∀ y ∈ d.handlers, y.id = id → y.progress ≠ .queued ∧ y.notification.About N

section Runs

variable {ns : List Notification} {N : Key} {d : Dispatcher} {x : Handler} {events : List Event}

theorem Begun.work {id : Nat} (hb : d.Begun N id) (y : Handler) : (d.work y).Begun N id := by
  obtain ⟨hless, hbegun⟩ := hb
  constructor
  · rcases work_cases d y with ⟨fault, he, _⟩ | ⟨e, es, he, _⟩ <;> rw [he] <;> exact hless
  · intro z hz hid
    rcases mem_work hz with ⟨hz, _⟩ | ⟨_, w, hw, _, e, es, rfl, _⟩
    · exact hbegun z hz hid
    · exact ⟨nofun, (hbegun w hw hid).2⟩

theorem Begun.step (ho : d.Orderly) {id : Nat} (hb : d.Begun N id) (e : Event) :
    (d.step e).Begun N id := by
  have hjoin (n : Notification) (k : Key) : (d.join n k).Begun N id := by
    refine ⟨Nat.lt_succ_of_lt hb.1, fun y hy hid => ?_⟩
    rcases List.mem_append.mp hy with hy | hy
    · exact hb.2 y hy hid
    · obtain rfl := List.mem_singleton.mp hy
      exact absurd hid (Nat.ne_of_gt hb.1)
  have hstep := step_happens ho e
  generalize d.step e = d' at hstep ⊢
  cases hstep with
  | save uri => exact hb
  | refuse hsave hk => exact ⟨Nat.lt_succ_of_lt hb.1, hb.2⟩
  | wait hsave hk => exact hjoin _ _
  | begin hsave hk hx => exact (hjoin _ _).work _
  | idle hid => exact hb
  | resume hx => exact hb.work _
  | shutdown => exact hb

/-- While the notebook is open, no change finds it closed. -/
theorem lapses_of_open {e : Event} (hopen : (d.step e).hub.cellsAt N ≠ none) :
    d.lapses N e = false := by
  cases e with
  | resume id =>
    cases hn : (d.step (.resume id)).hub.store.get? N with
    | none => simp [Hub.cellsAt, hn] at hopen
    | some n => simp [lapses, hn]
  | arrive n => rfl
  | shutdown => rfl

theorem Calm.run (hcalm : d.Calm N) (hc : d.CameFrom ns) (ha : Apart ns)
    (hevents : ∀ e ∈ events, Brings ns N e) (hu : (d.run events).Unfailing) :
    Quiet N (KeyedBy ns N) d (d.run events) := by
  induction events generalizing d with
  | nil => exact .refl d
  | cons e events ih =>
    obtain ⟨he, hn⟩ := hevents e (by simp)
    obtain ⟨hcalm', hquiet⟩ := hcalm.step hc ha he hn (hu.first hc.orderly)
    have hc' := hc.step he fun n h => (hn n h).1
    exact hquiet.trans (ih hcalm' hc' (fun e' h => hevents e' (List.mem_cons_of_mem e h)) hu)

/-- All passes of a handler are its notebook's. -/
theorem notebook_of_owedBy (hc : d.CameFrom ns) {id : Nat} (hb : d.Begun N id) {pass : ChainPass}
    (hp : pass ∈ passesOf (d.owedBy id)) : pass.token.notebook = N := by
  cases hf : d.handler? id with
  | none => simp [owedBy, hf, passesOf] at hp
  | some y =>
    have hy : y ∈ d.handlers := List.mem_of_find?_eq_some hf
    have hid : y.id = id := by simpa using List.find?_some hf
    simp only [owedBy, hf, Option.map_some, Option.getD_some, Handler.owed] at hp
    cases hprogress : y.progress with
    | queued => simp [hprogress, passesOf] at hp
    | delivering es =>
      rw [hprogress] at hp
      obtain ⟨_, htoken, _⟩ := hc.sound.passes y hy es hprogress pass hp
      obtain ⟨k, hk, _, ht⟩ := hc.sound.ticket y hy
      rw [(ht _ htoken).1]
      exact Except.ok.inj (hk.symm.trans (hb.2 y hy hid).2.2)

/-- From when it has begun to the end, a handler tells the links that are due. -/
theorem Calm.told_due (hcalm : d.Calm N) (hc : d.CameFrom ns) (ha : Apart ns)
    (hevents : ∀ e ∈ events, Brings ns N e) (hu : (d.run events).Unfailing)
    (hopen : d.hub.cellsAt N ≠ none) {id : Nat} (hb : d.Begun N id) :
    d.linksBy id events ++ d.hub.roster.linkCalls ((d.run events).dueBy id) =
        d.hub.roster.linkCalls (d.dueBy id) ∧
      d.lapsed N events = false := by
  induction events generalizing d with
  | nil => exact ⟨rfl, rfl⟩
  | cons e events ih =>
    obtain ⟨he, hn⟩ := hevents e (by simp)
    have hfirst := hu.first hc.orderly
    obtain ⟨hcalm', hquiet⟩ := hcalm.step hc ha he hn hfirst
    have hc' := hc.step he fun n h => (hn n h).1
    have hopen' : (d.step e).hub.cellsAt N ≠ none := by rwa [hquiet.cells]
    obtain ⟨hlinks, hlapsed⟩ := ih hcalm' hc' (fun e' h => hevents e' (List.mem_cons_of_mem e h)) hu
      hopen' (hb.step hc.orderly e)
    have htold := told_due_step hc.orderly hb.1 hfirst (fun y hy hid => (hb.2 y hy hid).1)
      fun pass hpass => by
        have hnotebook := notebook_of_owedBy hc hb hpass
        rw [Passes.isCurrent, Passes.isCurrent, hnotebook, hquiet.current hopen]
    have howners := sameOwners_step hc.orderly he
    rw [howners.linkCalls, howners.linkCalls] at hlinks
    constructor
    · rw [linksBy, List.append_assoc]
      exact (congrArg _ hlinks).trans htold
    · simp [lapsed, lapses_of_open hopen', hlapsed]

theorem dueBy_idle (hidle : d.isIdle = true) (id : Nat) : d.dueBy id = [] := by
  have hnone : d.handlers = [] := List.isEmpty_iff.mp hidle
  simp [dueBy, owedBy, handler?, hnone, Hub.dueLinks, passesOf]

end Runs

def Restructures (x : Handler) (token : Token) : Prop :=
  (∃ uri version change, x.notification = .changeNotebook uri version change ∧
    change.structural.isSome = true) ∧ x.ticket.token = some token

/-- Of a list of cells every link is filed and told to all owners if the token was kept, and else
none is told. -/
structure Rechained (r : Roster) (ds : List String) (kept : Bool) (h : Hub)
    (told : List Call) : Prop where
  linked : kept = true → h.Chained ds ∧ ∃ links : List Link, links.map Link.pair = chainLinks ds ∧
    (∀ l ∈ links, l.cell.Sound) ∧ told = r.linkCalls links
  lost : kept = false → told = []

theorem Rechained.owners {r s : Roster} {ds : List String} {kept : Bool} {h : Hub}
    {told : List Call}
    (hr : Rechained s ds kept h told) (ho : r.SameOwners s) : Rechained r ds kept h told where
  linked hk := by
    obtain ⟨hchained, links, hpairs, hsound, htold⟩ := hr.linked hk
    exact ⟨hchained, links, hpairs, hsound, htold.trans (ho.linkCalls links)⟩
  lost := hr.lost

section Rechains

variable {ns : List Notification} {N : Key} {d : Dispatcher} {x : Handler} {token : Token}
  {events : List Event} {ds : List String}

/-- The run of a structural change from when it begins. -/
theorem Waiting.rechains_of_work (hw : d.Waiting N x) (hc : d.CameFrom ns) (ha : Apart ns)
    (hx : d.Leads x) (hr : Restructures x token) (hevents : ∀ e ∈ events, Brings ns N e)
    (hu : ((d.work x).run events).Unfailing) (hidle : ((d.work x).run events).isIdle = true)
    (hds : ((d.work x).run events).hub.cellsAt N = some ds) (hkeys : (ds.map Uri.key).Nodup) :
    Rechained d.hub.roster ds (d.hub.passes.isCurrent token) ((d.work x).run events).hub
        ((d.work x).linksBy x.id events) ∧
      (d.work x).lapsed N events = false ∧ (d.work x).hub.cellsAt N = some ds := by
  obtain ⟨⟨uri, version, change, hn, hs⟩, htoken⟩ := hr
  have hcalm := hw.calm_work hc hx
  have hc' := hc.work hx
  have hfirst : (d.work x).Unfailing := fun p hp => hu p ((ended_run hc'.orderly events).subset hp)
  have hquiet := hcalm.run hc' ha hevents hu
  have hcells : (d.work x).hub.cellsAt N = some ds := hquiet.cells.symm.trans hds
  have hopen : (d.work x).hub.cellsAt N ≠ none := by simp [hcells]
  obtain ⟨hcurrent, hstale⟩ := hw.chains_work hc hx hfirst hn hs htoken hcells hkeys
  have hbegun : (d.work x).Begun N x.id := by
    refine ⟨?_, fun y hy hid => ?_⟩
    · have hless := hc.orderly.arrived x hw.mem
      rcases work_cases d x with ⟨fault, he, _⟩ | ⟨e, es, he, _⟩ <;> rw [he] <;> exact hless
    · rcases mem_work hy with ⟨_, hne⟩ | ⟨_, z, hz, hid', e, es, rfl, _⟩
      · exact absurd hid hne
      · obtain rfl := hc.orderly.eq_of_id hz hx.mem hid'
        exact ⟨nofun, hw.about⟩
  obtain ⟨hlinks, hlapsed⟩ := hcalm.told_due hc' ha hevents hu hopen hbegun
  have howners : d.hub.roster.SameOwners (d.work x).hub.roster := by
    obtain ⟨passes, hhub⟩ := work_hub d x
    rw [hhub]
    exact d.hub.sameOwners_work x
  have hnothing (r : Roster) : r.linkCalls [] = [] := rfl
  rw [dueBy_idle hidle, hnothing, List.append_nil, howners.linkCalls] at hlinks
  refine ⟨⟨fun hkept => ?_, fun hlost => ?_⟩, hlapsed, hcells⟩
  · obtain ⟨hchained, hpairs, hsound⟩ := hcurrent hkept
    refine ⟨hchained.congr fun p hp k hk => ?_, _, hpairs, hsound, hlinks⟩
    obtain ⟨notebook, hnotebook, hdocuments⟩ := Option.map_eq_some_iff.mp hcells
    subst hdocuments
    have hlisted := hc'.cells N N notebook rfl hnotebook p.1 (Hub.mem_of_mem_linksAfter hp)
    exact hquiet.predecessors k ⟨p.1, hlisted, hk⟩
  · rw [hlinks, hstale hlost, hnothing]

/-- The run of a structural change from when it waits: it keeps its token unless a change lapses. -/
theorem Waiting.rechains (hw : d.Waiting N x) (hc : d.CameFrom ns) (ha : Apart ns)
    (hr : Restructures x token) (hnotebook : token.notebook = N)
    (hevents : ∀ e ∈ events, Brings ns N e) (hu : (d.run events).Unfailing)
    (hidle : (d.run events).isIdle = true) (hds : (d.run events).hub.cellsAt N = some ds)
    (hkeys : (ds.map Uri.key).Nodup) :
    Rechained d.hub.roster ds (d.hub.passes.isCurrent token && !d.lapsed N events)
      (d.run events).hub
      (d.linksBy x.id events) := by
  induction events generalizing d with
  | nil =>
    have hnone : d.handlers = [] := List.isEmpty_iff.mp hidle
    have hmem := hw.mem
    rw [hnone] at hmem
    cases hmem
  | cons e events ih =>
    obtain ⟨he, hn⟩ := hevents e (by simp)
    have hrest := fun e' h => hevents e' (List.mem_cons_of_mem e h)
    by_cases hwork : d.Leads x ∧ e = .resume x.id
    · obtain ⟨hx, rfl⟩ := hwork
      have hstep := step_resume hc.orderly hx
      have hrun : d.run (.resume x.id :: events) = (d.work x).run events :=
        congrArg (fun d' : Dispatcher => d'.run events) hstep
      rw [hrun] at hu hidle hds ⊢
      obtain ⟨hrechained, hlapsed, hcells⟩ :=
        hw.rechains_of_work hc ha hx hr hrest hu hidle hds hkeys
      have hnow : d.lapses N (.resume x.id) = false := by
        apply lapses_of_open
        rw [hstep]
        simp [hcells]
      have hlinks : d.linksIn x.id (.resume x.id) = [] := by
        rw [linksIn_resume hc.orderly hx]
        simp [Handler.linkDue, hw.queued, Hub.linkCalls]
      rw [lapsed, linksBy, hnow, hlinks, hstep, hlapsed]
      simpa using hrechained
    · obtain ⟨hw', hlinks, hcurrent⟩ := hw.step hc he hn hwork
      have hrechained := ih hw' (hc.step he fun n h => (hn n h).1) hrest hu hidle hds
      have hkept : (d.step e).hub.passes.isCurrent token =
          (d.hub.passes.isCurrent token && !d.lapses N e) := by
        rw [Passes.isCurrent, Passes.isCurrent, hnotebook, hcurrent]
        cases d.lapses N e <;> simp
      rw [lapsed, linksBy, hlinks, List.nil_append, Bool.not_or, ← Bool.and_assoc, ← hkept]
      exact hrechained.owners (sameOwners_step hc.orderly he)

/-- The run of a structural change from its arrival. -/
theorem CameFrom.rechains {ns : List Notification} {d : Dispatcher} {N : Key} {uri : String}
    {version : Int} {change : NotebookChange} {events : List Event} {ds : List String}
    (hc : d.CameFrom ns) (ha : Apart ns) (hn : .changeNotebook uri version change ∈ ns)
    (hk : Uri.key uri = .ok N) (hs : change.structural.isSome = true)
    (hevents : ∀ e ∈ events, Brings ns N e)
    (hu : ((d.step (.arrive (.changeNotebook uri version change))).run events).Unfailing)
    (hidle : ((d.step (.arrive (.changeNotebook uri version change))).run events).isIdle = true)
    (hds : ((d.step (.arrive (.changeNotebook uri version change))).run events).hub.cellsAt N =
    some ds)
    (hkeys : (ds.map Uri.key).Nodup) :
    Rechained d.hub.roster ds
      (!(d.step (.arrive (.changeNotebook uri version change))).lapsed N events)
      ((d.step (.arrive (.changeNotebook uri version change))).run events).hub
      ((d.step (.arrive (.changeNotebook uri version change))).linksBy d.arrived events) := by
  have hrestarts : (Notification.changeNotebook uri version change).restarts = true := hs
  have hwaiting : (d.join (.changeNotebook uri version change) N).Waiting N
      (d.newcomer (.changeNotebook uri version change) N) := by
    refine ⟨by simp [Dispatcher.join], rfl, ⟨rfl, hk⟩, fun y hy _ hless => ?_⟩
    rcases List.mem_append.mp hy with hy | hy
    · exact absurd hless (Nat.not_lt.mpr (Nat.le_of_lt (hc.orderly.arrived y hy)))
    · obtain rfl := List.mem_singleton.mp hy
      exact absurd hless (Nat.lt_irrefl _)
  have hrestructures : Restructures (d.newcomer (.changeNotebook uri version change) N)
      (d.hub.passes.supersede N).2 :=
    ⟨⟨uri, version, change, rfl, hs⟩, by simp [newcomer, Hub.ticket, hrestarts]⟩
  have hcurrent : (d.join (.changeNotebook uri version change) N).hub.passes.isCurrent
      (d.hub.passes.supersede N).2 = true := by
    simp [Dispatcher.join, Hub.passesAt, hrestarts, Passes.supersede, Passes.isCurrent]
  have hjoined := hc.join (n := .changeNotebook uri version change) hk hn rfl
  have hstep := step_happens hc.orderly (.arrive (.changeNotebook uri version change))
  generalize d.step (.arrive (.changeNotebook uri version change)) = d' at hstep hu hidle hds ⊢
  cases hstep with
  | refuse hsave hk' =>
    have hkey := hk.symm.trans hk'
    cases hkey
  | wait hsave hk' =>
    obtain rfl := Except.ok.inj (hk.symm.trans hk')
    have hrechained := hwaiting.rechains hjoined ha hrestructures rfl hevents hu hidle hds hkeys
    rw [hcurrent, Bool.true_and] at hrechained
    exact hrechained
  | begin hsave hk' hx =>
    obtain rfl := Except.ok.inj (hk.symm.trans hk')
    obtain ⟨hrechained, hlapsed, _⟩ :=
      hwaiting.rechains_of_work hjoined ha hx hrestructures hevents hu hidle hds hkeys
    rw [hcurrent] at hrechained
    rw [hlapsed]
    exact hrechained

end Rechains

section Fresh

variable {settings : Settings} {route : Route} {roster : Roster}

theorem cameFrom_fresh (ns : List Notification) : (fresh settings route roster).CameFrom ns where
  orderly := orderly_fresh settings route roster
  sound := sound_fresh settings route roster
  arrived := by simp [fresh, start]
  cells M k n _ hn := by simp [fresh, start, Store.get?] at hn

theorem CameFrom.run {ns : List Notification} {d : Dispatcher} (hc : d.CameFrom ns)
    {events : List Event}
    (he : ∀ e ∈ events, e.isOfNotebooks = true) (hn : ∀ n ∈ arrivals events, n ∈ ns) :
    (d.run events).CameFrom ns := by
  induction events generalizing d with
  | nil => exact hc
  | cons e events ih =>
    exact ih (hc.step (he e (by simp)) fun n h => hn n (mem_arrivals_cons.mpr (.inl h)))
      (fun e' h => he e' (List.mem_cons_of_mem e h))
        fun n h => hn n (mem_arrivals_cons.mpr (.inr h))

theorem sameOwners_run {d : Dispatcher} (ho : d.Orderly) {events : List Event}
    (he : ∀ e ∈ events, e.isOfNotebooks = true) :
    d.hub.roster.SameOwners (d.run events).hub.roster := by
  induction events generalizing d with
  | nil => exact .refl _
  | cons e events ih =>
    exact (sameOwners_step ho (he e (by simp))).trans
      (ih (ho.step e) fun e' h => he e' (List.mem_cons_of_mem e h))

/-- A notebook that is open in the end was not closed after it was last opened or restructured. -/
theorem not_closed {events : List Event} {before after : List Notification} {N : Key}
    (hsplit : arrivals events = before ++ after) (hevents : ∀ e ∈ events, e.isOfNotebooks = true)
    (hseparate : Separate (arrivals events)) (hlast : ∀ n ∈ after, n.About N → n.restarts = false)
    (hidle : ((fresh settings route roster).run events).isIdle = true)
    (hgood : ((fresh settings route roster).run events).Unfailing)
    (hopen : ((fresh settings route roster).run events).hub.store.get? N ≠ none) :
    ∀ n ∈ after, n.About N → n.isClose = false := by
  intro n hn habout
  rw [Bool.eq_false_iff]
  intro hclose
  have hrun := (inStep_fresh (T := CountedTo (arrivals events)) settings route roster).run
    (orderly_fresh settings route roster) hevents (fun n hn => hseparate.within hn) hgood
  rw [List.nil_append] at hrun
  obtain ⟨h, hall, a⟩ := hrun.settled hidle N
  obtain ⟨front, back, rfl⟩ := List.append_of_mem hn
  have hworks : n.worksOn N = true := by
    refine Notification.worksOn_iff.mpr ⟨habout, fun uri he => ?_⟩
    rw [he] at hclose
    cases hclose
  rw [hsplit, ← List.append_assoc, List.filter_append, List.filter_cons_of_pos hworks] at hall
  have hback : ∀ m ∈ back.filter (·.worksOn N), m.About N ∧ m.restarts = false := by
    intro m hm
    obtain ⟨hm, hmN⟩ := List.mem_filter.mp hm
    have hmabout := (Notification.worksOn_iff.mp hmN).1
    exact ⟨hmabout, hlast m (List.mem_append_right _ (List.mem_cons_of_mem n hm)) hmabout⟩
  have hnone := Hub.handleAll_close habout hclose hback hall
  exact hopen (a.notebook ▸ hnone)

/-- A structural change of a notebook that stays open, with no opening or other structural change
after it: its cells are chained and all its links told to all owners, in order, unless a change that
found the notebook closed ended after it had arrived; then no link of it is told. -/
theorem rechains_unless_lapsed {events before after : List Event} {uri : String} {version : Int}
    {change : NotebookChange} {N : Key} {notebook : Notebook}
    (hsplit : events = before ++ .arrive (.changeNotebook uri version change) :: after)
    (hk : Uri.key uri = .ok N) (hs : change.structural.isSome = true)
    (hevents : ∀ e ∈ events, e.isOfNotebooks = true) (hapart : Apart (arrivals events))
    (hlast : ∀ n ∈ arrivals after, n.About N → n.restarts = false)
    (hidle : ((fresh settings route roster).run events).isIdle = true)
    (hgood : ((fresh settings route roster).run events).Unfailing)
    (hopen : ((fresh settings route roster).run events).hub.store.get? N = some notebook)
    (hkeys : (notebook.documents.map Uri.key).Nodup) :
    (((fresh settings route roster).run
          (before ++ [.arrive (.changeNotebook uri version change)])).lapsed N after = false →
      ((fresh settings route roster).run events).hub.Chained notebook.documents ∧
      ∃ links : List Link, links.map Link.pair = chainLinks notebook.documents ∧
        (∀ l ∈ links, l.cell.Sound) ∧
        ((fresh settings route roster).run
            (before ++ [.arrive (.changeNotebook uri version change)])).linksBy
          ((fresh settings route roster).run before).arrived after = roster.linkCalls links) ∧
    (((fresh settings route roster).run
          (before ++ [.arrive (.changeNotebook uri version change)])).lapsed N after = true →
      ((fresh settings route roster).run
          (before ++ [.arrive (.changeNotebook uri version change)])).linksBy
        ((fresh settings route roster).run before).arrived after = []) := by
  have hall : arrivals events =
      (arrivals before ++ [.changeNotebook uri version change]) ++ arrivals after := by
    simp [hsplit, arrivals]
  have hclose := not_closed hall hevents hapart.separate hlast hidle hgood (by simp [hopen])
  have hbrings : ∀ e ∈ after, Brings (arrivals events) N e := by
    intro e he
    refine ⟨hevents e (by simp [hsplit, he]), fun n hn => ?_⟩
    subst hn
    have hmem : n ∈ arrivals after := List.mem_filterMap.mpr ⟨_, he, rfl⟩
    refine ⟨by simp [hall, hmem], fun habout => ?_⟩
    simp [Notification.isPlain, hlast n hmem habout, hclose n hmem habout]
  have hbefore : ∀ e ∈ before, e.isOfNotebooks = true :=
    fun e he => hevents e (by simp [hsplit, he])
  have hc : ((fresh settings route roster).run before).CameFrom (arrivals events) :=
    (cameFrom_fresh _).run hbefore fun n hn => by simp [hall, hn]
  have howners := sameOwners_run (orderly_fresh settings route roster) hbefore
  have hrun : (fresh settings route roster).run events =
      (((fresh settings route roster).run before).step
        (.arrive (.changeNotebook uri version change))).run after := by
    rw [hsplit, run_append]
    rfl
  rw [hrun] at hidle hgood hopen ⊢
  rw [run_snoc]
  have hds := congrArg (Option.map Notebook.documents) hopen
  revert hc howners hidle hgood hds
  generalize (fresh settings route roster).run before = d
  intro hidle hgood hc howners hds
  have hrechained :=
    (hc.rechains hapart (by simp [hall]) hk hs hbrings hgood hidle hds hkeys).owners howners
  exact ⟨fun hlapsed => hrechained.linked (by simp [hlapsed]),
    fun hlapsed => hrechained.lost (by simp [hlapsed])⟩

end Fresh

/-- A notebook is opened and closed, and opened again with a second cell; `between` arrives in
between. -/
def reopening (between : List Event) : List Event :=
  [.arrive (.openNotebook ⟨"nb:1", "t", 1, none, [⟨.code, "c:a", none, none⟩]⟩
    [⟨"c:a", .unnamed, 1, ""⟩]),
    .arrive (.closeNotebook "nb:1" ["c:a"])] ++ between ++
  [.arrive (.openNotebook
    ⟨"nb:1", "t", 1, none, [⟨.code, "c:a", none, none⟩, ⟨.code, "c:b", none, none⟩]⟩
    [⟨"c:a", .unnamed, 1, ""⟩, ⟨"c:b", .unnamed, 1, ""⟩])]

def lateChange : List Event := [.arrive (.changeNotebook "nb:1" 2 ⟨none, none, none, none⟩)]

def withoutFirst : NotebookChange := ⟨none, some ⟨0, 1, [], [], ["c:a"]⟩, none, none⟩

def lookupsInTurn (late : Bool) : List Event :=
  (if late then [0, 1, 1, 2, 3, 3, 3, 4, 4] else [0, 1, 1, 2, 2, 2, 3, 3, 3]).map .resume

/-- With the late change in line, the cell that is left keeps the predecessor that is gone; without
it the cell is chained anew. -/
theorem rechains_unless_lapsed_reopening :
    (((fresh {} .registry (.start true)).run
        (reopening lateChange ++ [.arrive (.changeNotebook "nb:1" 3 withoutFirst)])).linksBy 4
          (lookupsInTurn true) = [] ∧
      ((((fresh {} .registry (.start true)).run (reopening lateChange ++
        .arrive (.changeNotebook "nb:1" 3 withoutFirst) :: lookupsInTurn true)).hub.documents.get?
          ⟨"c:b"⟩).map
          Document.predecessor) = some (some "c:a")) ∧
    ∃ links : List Link, links.map Link.pair = [("c:b", none)] ∧
      ((fresh {} .registry (.start true)).run
        (reopening [] ++ [.arrive (.changeNotebook "nb:1" 3 withoutFirst)])).linksBy 3
        (lookupsInTurn false) =
          (Roster.start true).linkCalls links := by
  have happly (between : List Event) (late : Bool)
      (hnames : ∀ n ∈ arrivals (reopening between ++
        .arrive (.changeNotebook "nb:1" 3 withoutFirst) :: lookupsInTurn late), n.uri = "nb:1") :
      Apart (arrivals (reopening between ++
        .arrive (.changeNotebook "nb:1" 3 withoutFirst) :: lookupsInTurn late)) := by
    intro n hn m hm k _ _
    rw [hnames n hn, hnames m hm]
  have hnone (late : Bool) : arrivals (lookupsInTurn late) = [] := by cases late <;> rfl
  have hkey : Uri.key "nb:1" = .ok ⟨"nb:1"⟩ := by decide +kernel
  have hdistinct : (["c:b"].map Uri.key).Nodup := by simp
  constructor
  · have hcells : (((fresh {} .registry (.start true)).run (reopening lateChange ++
        .arrive (.changeNotebook "nb:1" 3 withoutFirst) :: lookupsInTurn true)).hub.store.get?
          ⟨"nb:1"⟩).map
          Notebook.documents = some ["c:b"] := by decide +kernel
    obtain ⟨notebook, hopen, hdocuments⟩ := Option.map_eq_some_iff.mp hcells
    refine ⟨?_, by decide +kernel⟩
    refine (rechains_unless_lapsed rfl hkey rfl (by decide) (happly _ _ (by decide)) ?_
      (by decide +kernel) (by unfold Unfailing; decide +kernel) hopen (hdocuments ▸ hdistinct)).2
      (by decide +kernel)
    rw [hnone]
    nofun
  · have hcells : (((fresh {} .registry (.start true)).run (reopening [] ++
        .arrive (.changeNotebook "nb:1" 3 withoutFirst) :: lookupsInTurn false)).hub.store.get?
          ⟨"nb:1"⟩).map
          Notebook.documents = some ["c:b"] := by decide +kernel
    obtain ⟨notebook, hopen, hdocuments⟩ := Option.map_eq_some_iff.mp hcells
    have hkept := (rechains_unless_lapsed rfl hkey rfl (by decide) (happly _ _ (by decide))
      (by rw [hnone]; nofun) (by decide +kernel) (by unfold Unfailing; decide +kernel) hopen
      (hdocuments ▸ hdistinct)).1 (by decide +kernel)
    obtain ⟨_, links, hpairs, _, htold⟩ := hkept
    rw [hdocuments] at hpairs
    exact ⟨links, hpairs, htold⟩

end Dispatcher
end NotebookHub
