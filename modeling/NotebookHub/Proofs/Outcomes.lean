import NotebookHub.Hub.Replay
import NotebookHub.Proofs.Faults

namespace NotebookHub

namespace Hub

theorem fault?_of_error {n : Notification} {e : Uri.Error} (h : Hub)
    (hn : ∀ uri, n ≠ .saveNotebook uri)
    (he : Uri.key n.uri = .error e) : h.fault? n = some (.uri e) := by
  have hfault := Uri.fault?_of_error he
  cases n with
  | saveNotebook uri => exact absurd rfl (hn uri)
  | _ => simp [fault?, hfault]

/-- A notification fails with its fault, from its arrival to its last errand. -/
theorem handle_faults {h : Hub} (hf : h.store.Filed) (n : Notification) :
    (h.handle n).2 = h.fault? n := by
  unfold handle
  split
  · rfl
  · rename_i hn
    cases hk : Uri.key n.uri with
    | error e =>
      rw [fault?_of_error h hn hk]
      simp [takeTicket_on_error hk]
    | ok k =>
      have hbegin :=
        begin_faults (h := { h with passes := h.passesAt n k }) (h.ticket n k).token hf hk
      have hsame : Hub.fault? { h with passes := h.passesAt n k } n = h.fault? n := rfl
      rw [← hsame, ← hbegin]
      simp only [takeTicket_on hk]
      split <;> rename_i hrun <;> rw [hrun] <;> rfl

def firstFault (h : Hub) : List Notification → Option Fault
  | [] => none
  | n :: ns => (h.fault? n).or ((h.handle n).1.firstFault ns)

end Hub

def Recording.notifications (events : List Recording.Event) : List Notification :=
  events.filterMap fun e => (e.notification 0).toOption

/-- Whether an event is a notification has nothing to do with its number. -/
theorem Recording.Event.toOption_notification (e : Recording.Event) (i j : Nat) :
    (e.notification i).toOption = (e.notification j).toOption := by
  unfold notification
  cases Notification.Method.ofName? e.method with
  | none => rfl
  | some m => dsimp only; cases m.read (.obj e.params) <;> rfl

namespace Hub

/-- A recording is replayed to its end or up to its first fault. -/
theorem handleEvents_faults {h : Hub} (hf : h.store.Filed) (i : Nat)
    (events : List Recording.Event) :
    failure? (h.handleEvents i events).2 = h.firstFault (Recording.notifications events) := by
  induction events generalizing h i with
  | nil => rfl
  | cons e events ih =>
    have hsame := e.toOption_notification i 0
    unfold handleEvents Recording.notifications
    rw [List.filterMap_cons]
    cases hn : e.notification i with
    | error err =>
      rw [hn] at hsame
      rw [← hsame]
      have hrest := ih hf (i + 1)
      dsimp only [Except.toOption]
      rcases hr : h.handleEvents (i + 1) events with ⟨g, fault | errs⟩ <;> rw [hr] at hrest
        <;> exact hrest
    | ok n =>
      rw [hn] at hsame
      rw [← hsame]
      have hfault := handle_faults hf n
      dsimp only [Except.toOption, firstFault]
      rcases hr : h.handle n with ⟨g, _ | fault⟩ <;> rw [hr] at hfault <;> rw [← hfault]
      · exact ih (handle_filed hf hr) (i + 1)
      · rfl

end Hub

namespace Notification

def metadata? : Notification → Option Json
  | .openNotebook notebook _ => notebook.metadata
  | .changeNotebook _ _ change => change.metadata
  | _ => none

def isReadable (n : Notification) : Bool :=
  (n.uri :: (n.touched ++ n.listed)).all (fun uri => (Uri.fault? uri).isNone) &&
    (n.metadata?.bind Metadata.fault?).isNone

theorem isReadable_iff {n : Notification} :
    n.isReadable = true ↔ Uri.fault? n.uri = none ∧ (∀ uri ∈ n.touched, Uri.fault? uri = none) ∧
      (∀ uri ∈ n.listed, Uri.fault? uri = none) ∧ n.metadata?.bind Metadata.fault? = none := by
  simp [isReadable, and_assoc]

end Notification

namespace Hub

/-- What is spliced into a list of documents with keys has keys. -/
theorem fault?_respliced {s : StructureChange} {ds : List String}
    (hds : ∀ d ∈ ds, Uri.fault? d = none)
    (hs : ∀ d ∈ s.inserted.map Cell.document, Uri.fault? d = none) :
    ∀ d ∈ s.respliced ds, Uri.fault? d = none := by
  intro d hd
  rcases List.mem_append.mp hd with hd | hd
  · rcases List.mem_append.mp hd with hd | hd
    · exact hds d (List.mem_of_mem_take hd)
    · exact hs d hd
  · exact hds d (List.mem_of_mem_drop hd)

/-- A readable notification does not fail while the open notebooks list only documents that have
keys. -/
theorem fault?_of_isReadable {h : Hub} (hk : ∀ N, Keyed N h) {n : Notification}
    (hn : n.isReadable = true) :
    h.fault? n = none := by
  obtain ⟨huri, htouched, hlisted, hmetadata⟩ := Notification.isReadable_iff.mp hn
  have hreads : ∀ uri ∈ h.reads n, Uri.fault? uri = none := by
    intro uri hu
    cases n with
    | openNotebook notebook items =>
      rcases List.mem_append.mp hu with hu | hu
      · exact hlisted uri hu
      · exact htouched uri hu
    | changeNotebook own version change =>
      simp only [reads] at hu
      split at hu
      · simp at hu
      · rename_i notebook hnotebook
        obtain ⟨k, hopen⟩ : ∃ k, h.store.get? k = some notebook := by
          obtain ⟨k, _, hopen⟩ := Option.bind_eq_some_iff.mp hnotebook
          exact ⟨k, hopen⟩
        have hds : ∀ d ∈ notebook.documents, Uri.fault? d = none := fun d hd =>
          Uri.fault?_eq_none.mpr (hk k notebook hopen d hd)
        rcases List.mem_append.mp hu with hu | hu
        · split at hu
          · simp at hu
          · rename_i s hs
            rw [List.append_assoc] at hu
            rcases List.mem_append.mp hu with hu | hu
            · refine fault?_respliced hds (fun d hd => hlisted d ?_) uri hu
              simpa [Notification.listed, hs] using hd
            · refine htouched uri ?_
              simp only [Notification.touched, hs]
              exact List.mem_append_left _ hu
        · exact htouched uri (List.mem_append_right _ hu)
    | closeNotebook own cells =>
      simp only [reads] at hu
      split at hu
      · exact htouched uri hu
      · simp at hu
    | saveNotebook | openDocument | changeDocument | closeDocument => simp [reads] at hu
  have hreadsMetadata : (h.readsMetadata n).bind Metadata.fault? = none := by
    cases n with
    | openNotebook notebook items => exact hmetadata
    | changeNotebook own version change =>
      simp only [readsMetadata]
      cases h.notebookAt own with
      | none => rfl
      | some notebook => exact hmetadata
    | _ => rfl
  have hnone : (h.reads n).findSome? Uri.fault? = none := List.findSome?_eq_none_iff.mpr hreads
  unfold fault?
  split
  · rfl
  · simp [huri, hreadsMetadata, hnone]

/-- A handler lists nothing without a key, if its notification does not. -/
theorem keyed_work {h : Hub} (hk : ∀ N, Keyed N h) {x : Handler}
    (hx : ∀ d ∈ x.notification.listed, Uri.fault? d = none) (N : Key) : Keyed N (h.work x).1 := by
  intro n hn
  cases hp : x.progress with
  | delivering es =>
    rw [(h.work_speaks hp).store] at hn
    exact hk N n hn
  | queued =>
    have hr := h.work_registers (C := fun d => ∃ k, Uri.key d = .ok k) hp fun d hd =>
      Uri.fault?_eq_none.mp (hx d hd)
    by_cases habout : x.notification.About N
    · exact hr.cells (fun k n _ hopen => hk k n hopen) N n habout hn
    · rw [hr.store N habout] at hn
      exact hk N n hn

end Hub

namespace Dispatcher

/-- The notification that begins in a step: one that arrives without a key or finds its line empty,
or that of a handler that is called. -/
def begins? (d : Dispatcher) : Event → Option Notification
  | .arrive n =>
    match Uri.key n.uri with
    | .error _ => some n
    | .ok k => if (d.lineAt (d.hub.ticket n k).lock).isEmpty then some n else none
  | .resume id => (d.handler? id).bind fun x => if d.isReady x then some x.notification else none
  | .shutdown => none

def faults (d : Dispatcher) : List Event → List Fault
  | [] => []
  | e :: events => ((d.begins? e).bind d.hub.fault?).toList ++ (d.step e).faults events

def failed (d : Dispatcher) : List Fault := d.ended.filterMap Prod.snd

theorem unfailing_iff {d : Dispatcher} : d.Unfailing ↔ d.failed = [] := by
  simp [Unfailing, failed, List.filterMap_eq_nil_iff]

section Steps

variable {d : Dispatcher} {x : Handler}

theorem failed_work (d : Dispatcher) (x : Handler) :
    (d.work x).failed = d.failed ++ (failure? (d.hub.work x).2).toList := by
  rcases work_cases d x with ⟨fault, he, hr⟩ | ⟨e, es, he, hr⟩
  · rw [he, hr]
    simp only [failed, conclude, List.filterMap_append]
    cases fault <;> rfl
  · rw [he, hr]
    simp [failed, leave, failure?]

/-- A handler that begins fails with the fault of its notification; one that goes on does not
fail. -/
theorem failure_work (hs : d.Sound) (hx : x ∈ d.handlers) :
    failure? (d.hub.work x).2 = if x.progress =
      .queued then d.hub.fault? x.notification else none := by
  obtain ⟨k, hk, _⟩ := hs.ticket x hx
  unfold Hub.work
  cases hp : x.progress with
  | queued =>
    rw [if_pos rfl, ← Hub.begin_faults x.ticket.token hs.filed hk]
    dsimp only
    rcases (Hub.begin x.notification x.ticket.token).on d.hub with ⟨g, e | es⟩ <;> rfl
  | delivering es => simp [failure?]

/-- Whoever arrives is called at once if it finds its line empty. -/
theorem leads_newcomer (ho : d.Orderly) (n : Notification) (k : Key) :
    (d.join n k).Leads (d.newcomer n k) ↔ d.lineAt (d.hub.ticket n k).lock = [] := by
  have hline := d.lineAt_join n k (d.hub.ticket n k).lock
  rw [if_pos rfl] at hline
  unfold Leads
  rw [show (d.newcomer n k).ticket.lock = (d.hub.ticket n k).lock from rfl, hline]
  cases hl : d.lineAt (d.hub.ticket n k).lock with
  | nil => simp
  | cons y ys =>
    have hless := ho.arrived y (mem_lineAt.mp (by rw [hl]; exact List.mem_cons_self)).1
    have hne : y ≠ d.newcomer n k := by
      rintro rfl
      exact Nat.lt_irrefl _ hless
    simpa using hne

theorem isReady_of_leads (ho : d.Orderly) (hx : d.Leads x) :
    d.isReady x = decide (x.progress = .queued) := by
  simp [isReady, ho.holder_of_leads hx]

theorem step_arrive (ho : d.Orderly) {n : Notification} {k : Key}
    (hn : ∀ uri, n ≠ .saveNotebook uri) (hk : Uri.key n.uri = .ok k) :
    d.step (.arrive n) =
      if (d.lineAt (d.hub.ticket n k).lock).isEmpty then (d.join n k).work (d.newcomer n k)
      else d.join n k := by
  have hstart : d.step (.arrive n) = if (d.join n k).isReady (d.newcomer n k) then
      (d.join n k).beginHandler (d.newcomer n k) else d.join n k := by
    have harrive : d.step (.arrive n) = d.startHandler n := by simp only [step, arrive]
    rw [harrive]
    unfold startHandler
    simp only [Hub.takeTicket_on hk]
    rfl
  have hready : (d.join n k).isReady (d.newcomer n k) =
      (d.lineAt (d.hub.ticket n k).lock).isEmpty := by
    rw [Bool.eq_iff_iff, List.isEmpty_iff, ← leads_newcomer ho n k]
    constructor
    · intro hr
      have hholds := of_decide_eq_true (Bool.and_eq_true_iff.mp hr).2
      exact (ho.join n k).leads_of_holder (by simp [Dispatcher.join]) hholds
    · intro hl
      rw [isReady_of_leads (ho.join n k) hl]
      rfl
  rw [hstart, hready, beginHandler_eq rfl]

theorem step_arrive_keyless {n : Notification} {err : Uri.Error} (hn : ∀ uri, n ≠ .saveNotebook uri)
    (hk : Uri.key n.uri = .error err) : d.step (.arrive n) = d.refuse err := by
  have harrive : d.step (.arrive n) = d.startHandler n := by simp only [step, arrive]
  rw [harrive]
  unfold startHandler
  simp only [Hub.takeTicket_on_error hk]
  rfl

/-- Whoever is called to its turn begins, if it has not begun before. -/
theorem begins?_of_leads (ho : d.Orderly) (hx : d.Leads x) :
    d.begins? (.resume x.id) = if x.progress = .queued then some x.notification else none := by
  simp only [begins?, ho.handler?_eq hx.mem, Option.bind_some, isReady_of_leads ho hx,
    decide_eq_true_eq]

theorem begins?_of_idle (ho : d.Orderly) {id : Nat}
    (hid : ∀ x ∈ d.handlers, x.id = id → x.progress = .queued ∧ ¬ d.Leads x) :
    d.begins? (.resume id) = none := by
  cases hy : d.handler? id with
  | none => simp [begins?, hy]
  | some y =>
    have hmem : y ∈ d.handlers := List.mem_of_find?_eq_some hy
    obtain ⟨hq, hl⟩ := hid y hmem (by simpa using List.find?_some hy)
    have hr : d.isReady y = false := by
      rw [Bool.eq_false_iff]
      intro hr
      exact hl (ho.leads_of_holder hmem (by simpa [isReady, hq] using hr))
    simp [begins?, hy, hr]

/-- A step has the fault of what begins in it. -/
theorem failed_step (hs : d.Sound) (ho : d.Orderly) (e : Event) :
    (d.step e).failed = d.failed ++ ((d.begins? e).bind d.hub.fault?).toList := by
  cases e with
  | shutdown => simp [failed, step, begins?]
  | resume id =>
    have hstep := step_happens ho (.resume id)
    generalize d.step (.resume id) = d' at hstep ⊢
    cases hstep with
    | idle hid => simp [begins?_of_idle ho hid]
    | resume hx =>
      rw [failed_work, failure_work hs hx.mem, begins?_of_leads ho hx]
      split <;> rfl
  | arrive n =>
    by_cases hsave : ∃ uri, n = .saveNotebook uri
    · obtain ⟨uri, rfl⟩ := hsave
      have hnone : (d.begins? (.arrive (.saveNotebook uri))).bind d.hub.fault? = none := by
        simp only [begins?]
        split
        · rfl
        · split <;> rfl
      rw [hnone]
      simp [step, arrive, failed]
    · have hn : ∀ uri, n ≠ .saveNotebook uri := fun uri he => hsave ⟨uri, he⟩
      cases hk : Uri.key n.uri with
      | error err =>
        rw [step_arrive_keyless hn hk]
        simp [begins?, hk, Hub.fault?_of_error d.hub hn hk, failed, refuse]
      | ok k =>
        rw [step_arrive ho hn hk]
        simp only [begins?, hk]
        split
        · have hwork := failure_work (hs.join hk) (d := d.join n k) (x := d.newcomer n k)
            (by simp [Dispatcher.join])
          rw [failed_work, hwork]
          rfl
        · simp [failed, Dispatcher.join]

/-- What has failed after a schedule. -/
theorem failed_run (hs : d.Sound) (ho : d.Orderly) (events : List Event) :
    (d.run events).failed = d.failed ++ d.faults events := by
  induction events generalizing d with
  | nil => simp [faults, run]
  | cons e events ih =>
    refine (ih (hs.step ho e) (ho.step e)).trans ?_
    rw [failed_step hs ho e, List.append_assoc]
    rfl

/-- The notebooks that are open list only documents with keys, and whoever is under way says nothing
that cannot be read. -/
structure Readable (d : Dispatcher) : Prop where
  keyed : ∀ N, Hub.Keyed N d.hub
  handlers : ∀ x ∈ d.handlers, x.notification.isReadable = true

theorem Readable.join (hr : d.Readable) {n : Notification} (hn : n.isReadable = true) (k : Key) :
    (d.join n k).Readable where
  keyed := hr.keyed
  handlers x hx := by
    rcases List.mem_append.mp hx with hx | hx
    · exact hr.handlers x hx
    · obtain rfl := List.mem_singleton.mp hx
      exact hn

theorem Readable.work (hr : d.Readable) (hx : x ∈ d.handlers) : (d.work x).Readable where
  keyed N n hn := by
    rw [store_work] at hn
    have hlisted := (Notification.isReadable_iff.mp (hr.handlers x hx)).2.2.1
    exact Hub.keyed_work hr.keyed hlisted N n hn
  handlers y hy := by
    rcases mem_work hy with ⟨hy, _⟩ | ⟨_, z, hz, _, _, _, rfl, _⟩
    · exact hr.handlers y hy
    · exact hr.handlers z hz

theorem Readable.step (hr : d.Readable) (ho : d.Orderly) {e : Event}
    (he : ∀ n, e = .arrive n → n.isReadable = true) : (d.step e).Readable := by
  have hstep := step_happens ho e
  generalize d.step e = d' at hstep ⊢
  cases hstep with
  | save uri => exact ⟨hr.keyed, hr.handlers⟩
  | refuse hn hk => exact ⟨hr.keyed, hr.handlers⟩
  | wait hn hk => exact hr.join (he _ rfl) _
  | begin hn hk hx => exact (hr.join (he _ rfl) _).work hx.mem
  | idle hid => exact hr
  | resume hx => exact hr.work hx.mem
  | shutdown =>
    refine ⟨fun N n hn => ?_, hr.handlers⟩
    simp [Hub.shutdown, Hub.clearWorkspaces, Store.clear, Store.get?] at hn

theorem Readable.faults (hr : d.Readable) (ho : d.Orderly) {events : List Event}
    (he : ∀ n ∈ arrivals events, n.isReadable = true) : d.faults events = [] := by
  induction events generalizing d with
  | nil => rfl
  | cons e events ih =>
    have hfirst : ∀ n, e = .arrive n → n.isReadable = true :=
      fun n hn => he n (mem_arrivals_cons.mpr (.inl hn))
    have hrest : ∀ n ∈ arrivals events, n.isReadable = true :=
      fun n hn => he n (mem_arrivals_cons.mpr (.inr hn))
    have hnow : (d.begins? e).bind d.hub.fault? = none := by
      rw [Option.bind_eq_none_iff]
      intro n hn
      refine Hub.fault?_of_isReadable hr.keyed ?_
      cases e with
      | shutdown => cases hn
      | resume id =>
        obtain ⟨x, hx, hn⟩ := Option.bind_eq_some_iff.mp hn
        split at hn
        · obtain rfl := Option.some.inj hn
          exact hr.handlers x (List.mem_of_find?_eq_some hx)
        · cases hn
      | arrive m =>
        have hm : m = n := by
          simp only [begins?] at hn
          split at hn
          · exact Option.some.inj hn
          · split at hn
            · exact Option.some.inj hn
            · cases hn
        exact hm ▸ hfirst m rfl
    unfold Dispatcher.faults
    rw [hnow, ih (hr.step ho hfirst) (ho.step e) hrest]
    rfl

end Steps

/-- Under any schedule, what fails is what cannot be read: the handlers that have failed are those
of notifications with a fault, each as the hub stood when it began. So it is with a notification
that is handled now, and with a recording that is replayed now; and nothing has failed if all that
arrived can be read. -/
theorem fails_with_first_unreadable (settings : Settings) (route : Route) (roster : Roster)
    (events : List Event) {d : Dispatcher} (hd : d = (fresh settings route roster).run events) :
    d.failed = (fresh settings route roster).faults events ∧
    (∀ n, (d.hub.handle n).2 = d.hub.fault? n) ∧
    (∀ i recording, failure? (d.hub.handleEvents i recording).2 =
      d.hub.firstFault (Recording.notifications recording)) ∧
    ((∀ n ∈ arrivals events, n.isReadable = true) → d.Unfailing) := by
  have hs := sound_fresh settings route roster
  have ho := orderly_fresh settings route roster
  have hfailed : d.failed = (fresh settings route roster).faults events := by
    rw [hd, failed_run hs ho]
    rfl
  have hfiled : d.hub.store.Filed := by
    rw [hd]
    exact (hs.run ho events).filed
  refine ⟨hfailed, Hub.handle_faults hfiled, Hub.handleEvents_faults hfiled, fun hreadable => ?_⟩
  have hfresh : (fresh settings route roster).Readable :=
    ⟨fun N n hn => by simp [fresh, start, Store.get?] at hn, by simp [fresh, start]⟩
  rw [unfailing_iff, hfailed]
  exact hfresh.faults ho hreadable

/-- Two notebooks are opened side by side without a fault. A notebook whose file has no absolute
path cannot be closed, though it is not open, and one whose metadata is a number cannot be
opened. -/
theorem fails_with_first_unreadable_twoNotebooks :
    ((fresh {} .registry (.start true)).run twoNotebooks).Unfailing ∧
      (((fresh {} .registry (.start true)).run twoNotebooks).hub.handle
      (.closeNotebook "file:n.ipynb" [])).2 =
        some (.uri .relativePath) ∧
      (((fresh {} .registry (.start true)).run twoNotebooks).hub.handle
        (.openNotebook ⟨"nb:3", "t", 1, some (.int 5), []⟩ [])).2 =
        some (.metadata .notEnumerable) := by
  obtain ⟨_, hhandle, _, hunfailing⟩ :=
    fails_with_first_unreadable {} .registry (.start true) twoNotebooks rfl
  refine ⟨hunfailing (by decide +kernel), ?_, ?_⟩
  · rw [hhandle]
    decide +kernel
  · rw [hhandle]
    decide +kernel

end Dispatcher
end NotebookHub
