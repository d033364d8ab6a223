import NotebookHub.Proofs.Passes

namespace NotebookHub

def Notification.opensNotebook (n : Notification) (k : Key) : Prop :=
  ∃ notebook items, n = .openNotebook notebook items ∧ Uri.key notebook.uri = .ok k

namespace Hub

structure Confined (N T : Key → Prop) (h : Hub) : Prop where
  notebooks : ∀ k, (h.store.get? k).isSome → N k
  documents : ∀ k, (h.documents.get? k).isSome → T k

namespace Confined

variable {N T : Key → Prop} {h g : Hub}

theorem congr (hc : h.Confined N T) (hs : g.store = h.store) (hd : g.documents = h.documents) :
    g.Confined N T :=
  ⟨hs ▸ hc.notebooks, hd ▸ hc.documents⟩

theorem speak (hc : h.Confined N T) (hs : Speaks h g) : g.Confined N T :=
  hc.congr hs.store hs.documents

theorem mono {N' T' : Key → Prop} (hc : h.Confined N T) (hN : ∀ k, N k → N' k)
    (hT : ∀ k, T k → T' k) :
    h.Confined N' T' :=
  ⟨fun k hk => hN k (hc.notebooks k hk), fun k hk => hT k (hc.documents k hk)⟩

theorem withStore (hc : h.Confined N T) {store : Store}
    (hs : ∀ k, (store.get? k).isSome → (h.store.get? k).isSome ∨ N k) :
    Confined N T { h with store } :=
  ⟨fun k hk => (hs k hk).elim (hc.notebooks k) id, hc.documents⟩

theorem withDocuments (hc : h.Confined N T) {documents : Registry}
    (hd : ∀ k, (documents.get? k).isSome → (h.documents.get? k).isSome ∨ T k) :
    Confined N T { h with documents } :=
  ⟨hc.notebooks, fun k hk => (hd k hk).elim (hc.documents k) id⟩

theorem modifyStore (hc : h.Confined N T) (key : Key) (f : Notebook → Notebook) :
    Confined N T { h with store := h.store.modify key f } := by
  refine hc.withStore fun k hk => .inl ?_
  rw [Store.get?_modify] at hk
  split at hk
  · simpa using hk
  · exact hk

end Confined

section Operations

variable {N T : Key → Prop}

theorem jot_confined (n : Note) : Act.Preserves (Confined N T) (Act.jot n) :=
  fun _ hc => hc.congr rfl rfl

theorem enterDocument_confined {item : TextItem} (mode : Mode) (predecessor : Option String)
    (hT : ∀ k, Uri.key item.uri = .ok k → T k) :
    Act.Preserves (Confined N T) (enterDocument item mode predecessor) := by
  intro g hg
  cases ha : Address.of item.uri with
  | error e =>
    rw [enterDocument_on_error ha]
    exact hg
  | ok a =>
    obtain ⟨js, he⟩ := enterDocument_on ha mode predecessor g
    rw [he]
    refine Confined.withDocuments (h := { g with journal := js }) (hg.congr rfl rfl) fun k hk => ?_
    rw [Registry.get?_enter] at hk
    split at hk
    · rename_i hkey
      exact .inr (hT k (hkey ▸ (Address.of_eq_ok ha).2.1))
    · exact .inl hk

theorem registerOpen_confined {item : TextItem} (mode : Mode) (predecessor : Option String)
    (hT : ∀ k, Uri.key item.uri = .ok k → T k) :
    Act.Preserves (Confined N T) (registerOpen item mode predecessor) :=
  registerOpen_preserves jot_confined mode predecessor fun _ _ => enterDocument_confined _ _ hT

theorem updateDocument_confined (change : ContentChange) :
    Act.Preserves (Confined N T) (updateDocument change) := by
  refine .keyOf_bind fun key hk => .get_bind fun g hg => ?_
  dsimp only
  split
  · exact jot_confined _ g hg
  · refine hg.withDocuments fun k hk => .inl ?_
    rw [Registry.get?_update] at hk
    split at hk
    · simpa using hk
    · exact hk

theorem registerChange_confined (change : ContentChange) (mode : Mode) :
    Act.Preserves (Confined N T) (registerChange change mode) :=
  registerChange_preserves jot_confined mode (updateDocument_confined change)

theorem registerClose_confined (uri : String) :
    Act.Preserves (Confined N T) (registerClose uri) := by
  refine registerClose_preserves jot_confined fun a _ g hg => hg.withDocuments fun k hk => .inl ?_
  rw [Registry.get?_close] at hk
  split at hk
  · cases hk
  · exact hk

theorem stage_confined (uri : String) (token : Token) :
    Act.Preserves (Confined N T) (stage uri token) := by
  refine stage_preserves jot_confined token fun _ _ _ _ _ _ => linkCells_preserves
    fun p _ a _ g hg =>
    hg.withDocuments fun k hk => .inl ?_
  rw [Registry.get?_link] at hk
  split at hk
  · simpa using hk
  · exact hk

theorem reindex_confined (key : Key) : Act.Preserves (Confined N T) (reindex key) := by
  intro g hg
  rw [reindex_on]
  exact hg.withStore fun k hk => .inl (by simpa [Store.get?_reindex] using hk)

theorem openInStore_confined {item : NotebookItem} (hN : ∀ k, Uri.key item.uri = .ok k → N k) :
    Act.Preserves (Confined N T) (openInStore item) := by
  refine openInStore_preserves jot_confined (fun key g hg => hg.withStore fun k hk => .inl ?_)
    fun key hkey =>
    putInStore_preserves (fun metadata g hg => hg.withStore fun k hk => ?_) (reindex_confined key)
  · simpa [Store.get?, Store.unindex] using hk
  · simp only [Store.get?, Table.get?_insert] at hk
    split at hk
    · rename_i he
      exact .inr (hN k (he ▸ hkey))
    · exact .inl hk

theorem applyStructure_confined {key : Key} {notebook : Notebook} {change : StructureChange}
    (token : Option Token) (hT : ∀ item ∈ change.opened, ∀ k, Uri.key item.uri = .ok k → T k) :
    Act.Preserves (Confined N T) (applyStructure key notebook change token) :=
  applyStructure_preserves jot_confined (fun _ hg => hg.modifyStore key _) (reindex_confined key)
    (fun item hi _ => registerOpen_confined _ _ (hT item hi))
      (fun uri _ => registerClose_confined uri)
    fun t _ => stage_confined _ t

theorem applyVersion_confined (key : Key) (version : Int) (metadata : Option Json) :
    Act.Preserves (Confined N T) (applyVersion key version metadata) := by
  refine (Act.Preserves.modify fun g hg => hg.modifyStore key _).bind fun _ => ?_
  split
  · exact .pure _
  · exact (metadataOf_preserves _).bind fun _ => .modify fun g hg => hg.modifyStore key _

theorem changeCells_confined (key : Key) (change : NotebookChange) :
    Act.Preserves (Confined N T) (changeCells key change) :=
  changeCells_preserves
    (fun _ => applyData_preserves jot_confined fun _ _ _ hg => hg.modifyStore key _)
    fun c _ => registerChange_confined c .cell

end Operations

section Begin

variable {N T : Key → Prop} {h : Hub}

/-- What a notification registers opens nothing that the notification does not open itself. -/
theorem begin_confined {n : Notification} (token : Option Token) (hN : ∀ k, n.opensNotebook k → N k)
    (hT : ∀ k, n.opens k = true → T k) : Act.Preserves (Confined N T) (begin n token) := by
  have hrecord (c : Call) :
      Act.Preserves (Confined N T) (do modify (·.call c); return ([] : List Errand)) :=
    (Act.Preserves.modify fun g hg => hg.congr rfl rfl).bind fun _ => .pure _
  cases n with
  | openNotebook notebook items =>
    refine beginOpen_preserves jot_confined token
      (openInStore_confined fun k hk => hN k ⟨_, _, rfl, hk⟩)
      (fun item hi _ => registerOpen_confined _ _ fun k hk => hT k ?_) (stage_confined _)
    simpa [Notification.opens, Notification.opened] using ⟨item, hi, hk⟩
  | changeNotebook uri version change =>
    refine beginChange_preserves jot_confined token
      (fun key _ => applyVersion_confined key version _)
      (fun key _ g notebook _ _ s hs => applyStructure_confined token fun item hi k hk => hT k ?_)
      fun key _ => changeCells_confined key change
    simpa [Notification.opens, Notification.opened, hs] using ⟨item, hi, hk⟩
  | saveNotebook uri => exact Act.Preserves.bind (jot_confined _) fun _ => .pure _
  | closeNotebook uri cells =>
    refine beginClose_preserves jot_confined (fun key _ g hg => hg.withStore fun k hk => .inl ?_)
      fun u _ => registerClose_confined u
    rw [Store.get?_close] at hk
    split at hk
    · cases hk
    · exact hk
  | openDocument item =>
    refine routed_preserves
      ((registerOpen_confined _ _ fun k hk => hT k ?_).bind fun _ => .pure _) (hrecord _)
    simpa [Notification.opens, Notification.opened] using hk
  | changeDocument change =>
    exact routed_preserves ((registerChange_confined change _).bind fun _ => .pure _) (hrecord _)
  | closeDocument uri =>
    exact routed_preserves ((registerClose_confined uri).bind fun _ => .pure _) (hrecord _)

/-- A handler that goes on opens nothing, and one that begins only what its notification opens. -/
theorem Confined.work (hc : h.Confined N T) {x : Handler}
    (hN : x.progress = .queued → ∀ k, x.notification.opensNotebook k → N k)
    (hT : x.progress = .queued → ∀ k, x.notification.opens k = true → T k) :
    (h.work x).1.Confined N T :=
  work_preserves (fun _ _ hs hc => hc.speak hs)
    (fun hp => begin_confined x.ticket.token (hN hp) (hT hp)) hc

end Begin

theorem shutdown_confined (N T : Key → Prop) (h : Hub) : h.shutdown.Confined N T where
  notebooks k hk := by simp [shutdown, clearWorkspaces, Store.clear, Store.get?] at hk
  documents k hk := by simp [shutdown, clearWorkspaces, Registry.clear, Registry.get?] at hk

end Hub

namespace Dispatcher

/-- A handler that stood in line for its lock at first stands there no longer. -/
def Called (d₀ d : Dispatcher) (x : Handler) : Prop :=
  x ∈ d₀.handlers ∧ x.progress = .queued ∧ x ∉ d.handlers

def LateWait (d₀ d : Dispatcher) : Prop :=
  ∀ i, d₀.arrived ≤ i → i < d.arrived → ∃ x ∈ d.handlers, x.id = i ∧ x.progress = .queued

/-- Since a shutdown, which left `d₀`, nothing was opened but by those that were called from their
lines. -/
structure Stopped (d₀ d : Dispatcher) : Prop where
  arrived : d₀.arrived ≤ d.arrived
  waiting : ∀ x ∈ d.handlers, x.progress = .queued → x ∈ d₀.handlers ∨ d₀.arrived ≤ x.id
  confined : d.hub.Confined (fun k => ∃ x, Called d₀ d x ∧ x.notification.opensNotebook k)
    fun k => ∃ x, Called d₀ d x ∧ x.notification.opens k = true

/-- A handler that has worked waits no longer, and nobody joins a line. -/
theorem queued_of_mem_work {d : Dispatcher} {x y : Handler} (hy : y ∈ (d.work x).handlers)
    (hp : y.progress = .queued) : y ∈ d.handlers ∧ y.id ≠ x.id := by
  rcases mem_work hy with hmem | ⟨_, z, _, _, e, es, rfl, _⟩
  · exact hmem
  · cases hp

theorem arrived_work (d : Dispatcher) (x : Handler) : (d.work x).arrived = d.arrived := by
  rcases work_cases d x with ⟨fault, he, _⟩ | ⟨e, es, he, _⟩
  · rw [he]
    rfl
  · rw [he]
    rfl

/-- Who waits after a step waited before, or has just arrived. -/
theorem queued_of_mem_step {d : Dispatcher} (ho : d.Orderly) {e : Event} {y : Handler}
    (hy : y ∈ (d.step e).handlers) (hp : y.progress = .queued) :
    y ∈ d.handlers ∨ y.id = d.arrived := by
  have hstep := step_happens ho e
  generalize d.step e = d' at hstep hy
  have hjoin (n : Notification) (k : Key) (hy : y ∈ (d.join n k).handlers) :
      y ∈ d.handlers ∨ y.id = d.arrived := by
    rcases List.mem_append.mp hy with hy | hy
    · exact .inl hy
    · obtain rfl := List.mem_singleton.mp hy
      exact .inr rfl
  cases hstep with
  | save uri => exact .inl hy
  | refuse hn hk => exact .inl hy
  | wait hn hk => exact hjoin _ _ hy
  | begin hn hk hx => exact hjoin _ _ (queued_of_mem_work hy hp).1
  | idle hid => exact .inl hy
  | resume hx => exact .inl (queued_of_mem_work hy hp).1
  | shutdown => exact .inl hy

theorem arrived_step {d : Dispatcher} (ho : d.Orderly) (e : Event) :
    d.arrived ≤ (d.step e).arrived := by
  have hstep := step_happens ho e
  generalize d.step e = d' at hstep ⊢
  cases hstep with
  | save uri => exact Nat.le_refl _
  | refuse hn hk => exact Nat.le_succ _
  | wait hn hk => exact Nat.le_succ _
  | begin hn hk hx =>
    rw [arrived_work]
    exact Nat.le_succ _
  | idle hid => exact Nat.le_refl _
  | resume hx => rw [arrived_work]
  | shutdown => exact Nat.le_refl _

/-- Who still waits has waited all along. -/
theorem LateWait.before {d₀ d : Dispatcher} (ho : d.Orderly) {e : Event}
    (hlate : LateWait d₀ (d.step e)) :
    LateWait d₀ d := by
  intro i hle hlt
  obtain ⟨x, hx, hid, hp⟩ := hlate i hle (Nat.lt_of_lt_of_le hlt (arrived_step ho e))
  rcases queued_of_mem_step ho hx hp with hx | he
  · exact ⟨x, hx, hid, hp⟩
  · omega

namespace Stopped

variable {d₀ d : Dispatcher} {x : Handler}

/-- Who was called stays called, as long as nobody takes its place. -/
theorem confined_of (hs : Stopped d₀ d) {g : Dispatcher}
    (hg : ∀ y, y ∈ d₀.handlers → y.progress = .queued → y ∈ g.handlers → y ∈ d.handlers) :
    d.hub.Confined (fun k => ∃ x, Called d₀ g x ∧ x.notification.opensNotebook k)
      fun k => ∃ x, Called d₀ g x ∧ x.notification.opens k = true := by
  have hcalled (y : Handler) (hy : Called d₀ d y) : Called d₀ g y :=
    ⟨hy.1, hy.2.1, fun hm => hy.2.2 (hg y hy.1 hy.2.1 hm)⟩
  apply hs.confined.mono
  · rintro k ⟨y, hy, hk⟩
    exact ⟨y, hcalled y hy, hk⟩
  · rintro k ⟨y, hy, hk⟩
    exact ⟨y, hcalled y hy, hk⟩

theorem work (hs : Stopped d₀ d) (ho : d.Orderly) (hx : x ∈ d.handlers)
    (hlate : LateWait d₀ (d.work x)) :
    Stopped d₀ (d.work x) where
  arrived := by
    rw [arrived_work]
    exact hs.arrived
  waiting y hy hp := hs.waiting y (queued_of_mem_work hy hp).1 hp
  confined := by
    have hgone : x.progress = .queued → Called d₀ (d.work x) x := by
      intro hp
      refine ⟨(hs.waiting x hx hp).resolve_right fun hle => ?_, hp, fun hm => ?_⟩
      · -- who arrived later would still be waiting
        obtain ⟨y, hy, hid, hq⟩ := hlate x.id hle (by rw [arrived_work]; exact ho.arrived x hx)
        exact (queued_of_mem_work hy hq).2 hid
      · exact (queued_of_mem_work hm hp).2 rfl
    have hkept := hs.confined_of (g := d.work x) fun y _ hp hy => (queued_of_mem_work hy hp).1
    obtain ⟨passes, hhub⟩ := work_hub d x
    rw [hhub]
    refine Hub.Confined.congr (h := (d.hub.work x).1) ?_ rfl rfl
    exact hkept.work (fun hp k hk => ⟨x, hgone hp, hk⟩) fun hp k hk => ⟨x, hgone hp, hk⟩

theorem join (hs : Stopped d₀ d) (ho₀ : d₀.Orderly) (n : Notification) (k : Key) :
    Stopped d₀ (d.join n k) where
  arrived := Nat.le_succ_of_le hs.arrived
  waiting y hy hp := by
    rcases List.mem_append.mp hy with hy | hy
    · exact hs.waiting y hy hp
    · obtain rfl := List.mem_singleton.mp hy
      exact .inr hs.arrived
  confined := by
    refine (hs.confined_of fun y hy _ hm => ?_).congr rfl rfl
    rcases List.mem_append.mp hm with hm | hm
    · exact hm
    · obtain rfl := List.mem_singleton.mp hm
      exact absurd (ho₀.arrived _ hy) (Nat.not_lt.mpr hs.arrived)

theorem step (hs : Stopped d₀ d) (ho₀ : d₀.Orderly) (ho : d.Orderly) (e : Event)
    (hlate : LateWait d₀ (d.step e)) : Stopped d₀ (d.step e) := by
  have hstep := step_happens ho e
  generalize d.step e = d' at hstep hlate ⊢
  cases hstep with
  | save uri => exact ⟨hs.arrived, hs.waiting, hs.confined.congr rfl rfl⟩
  | refuse hn hk => exact ⟨Nat.le_succ_of_le hs.arrived, hs.waiting, hs.confined⟩
  | wait hn hk => exact hs.join ho₀ _ _
  | begin hn hk hx => exact (hs.join ho₀ _ _).work (ho.join _ _) hx.mem hlate
  | idle hid => exact hs
  | resume hx => exact hs.work ho hx.mem hlate
  | shutdown => exact ⟨hs.arrived, hs.waiting, Hub.shutdown_confined ..⟩

theorem run (ho : d₀.Orderly) (hs : Stopped d₀ d₀) (events : List Event)
    (hlate : LateWait d₀ (d₀.run events)) : Stopped d₀ (d₀.run events) := by
  induction events using List.reverseRecOn with
  | nil => exact hs
  | append_singleton events e ih =>
    rw [run_snoc] at hlate ⊢
    exact (ih (hlate.before (ho.run events))).step ho (ho.run events) e hlate

end Stopped

/-- After a shutdown, while whoever arrives later waits, a notebook or a document is open only if a
handler that stood in line for its lock when the shutdown came was called since and its notification
opens it; and the only tokens are of later arrivals. -/
theorem cleared_but_for_called {settings : Settings} {route : Route} {roster : Roster}
    {before after : List Event} {d₀ d : Dispatcher}
    (h₀ : d₀ = (fresh settings route roster).run (before ++ [.shutdown])) (hd : d = d₀.run after)
    (hlate : LateWait d₀ d) (k : Key) :
    ((d.hub.store.get? k).isSome → ∃ x, Called d₀ d x ∧ x.notification.opensNotebook k) ∧
      ((d.hub.documents.get? k).isSome → ∃ x, Called d₀ d x ∧ x.notification.opens k = true) ∧
      ((d.hub.passes.current.get? k).isSome →
        ∃ n, .arrive n ∈ after ∧ n.restarts = true ∧ Uri.key n.uri = .ok k) := by
  have hlast : d₀ = ((fresh settings route roster).run before).step .shutdown := by
    rw [h₀, run_snoc]
  have ho : d₀.Orderly := by
    rw [h₀]
    exact (orderly_fresh ..).run _
  have hs : Stopped d₀ d₀ := by
    refine ⟨Nat.le_refl _, fun x hx _ => .inl hx, ?_⟩
    have hclear := Hub.shutdown_confined
      (fun k => ∃ x, Called d₀ d₀ x ∧ x.notification.opensNotebook k)
      (fun k => ∃ x, Called d₀ d₀ x ∧ x.notification.opens k = true)
      ((fresh settings route roster).run before).hub
    rw [hlast] at hclear ⊢
    exact hclear
  subst hd
  have hstopped := hs.run ho after hlate
  refine ⟨hstopped.confined.notebooks k, hstopped.confined.documents k, fun hk => ?_⟩
  obtain ⟨generation, hg⟩ := Option.isSome_iff_exists.mp hk
  have hempty : d₀.hub.passes.current = .empty := by
    rw [hlast]
    rfl
  have hcurrent : (d₀.run after).hub.passes.isCurrent ⟨k, generation⟩ = true :=
    Passes.isCurrent_iff.mpr hg
  obtain ⟨as, n, bs, he, hr, hn, _⟩ := issued_of_current ho hempty after hcurrent
  exact ⟨n, by simp [he], hr, hn⟩

/-- A notebook is opened, and opened again while the first handler is at a lookup. -/
def openedTwice : List Event :=
  [.arrive (.openNotebook ⟨"nb:1", "t", 1, none, [⟨.code, "c:a", none, none⟩]⟩
    [⟨"c:a", .unnamed, 1, "a"⟩]),
    .arrive (.openNotebook ⟨"nb:1", "t", 2, none, [⟨.code, "c:a", none, none⟩]⟩
      [⟨"c:a", .unnamed, 2, "b"⟩])]

def stopped (before : List Event) : Dispatcher :=
  (fresh {} .registry (.start true)).run (before ++ [.shutdown])

/-- Nothing is opened by the handler that had begun; the one that waited opens the notebook
again. -/
theorem cleared_but_for_called_openedTwice :
    (∀ k, ((stopped (openedTwice.take 1)).run [.resume 0]).hub.store.get? k = none) ∧
      (((stopped openedTwice).run [.resume 0, .resume 1]).hub.store.get? ⟨"nb:1"⟩).isSome ∧
      ∃ x, Called (stopped openedTwice) ((stopped openedTwice).run [.resume 0, .resume 1]) x ∧
        x.notification.opensNotebook ⟨"nb:1"⟩ := by
  have hlate (d₀ d : Dispatcher) (he : d.arrived = d₀.arrived) : LateWait d₀ d := by
    intro i hle hlt
    omega
  have hstopped (before : List Event) :
      stopped before = (fresh {} .registry (.start true)).run (before ++ [.shutdown]) := rfl
  refine ⟨fun k => ?_, ?_⟩
  · have hcleared := (cleared_but_for_called (hstopped (openedTwice.take 1)) rfl
      (hlate _ ((stopped (openedTwice.take 1)).run [.resume 0]) (by decide +kernel)) k).1
    have hbegun : ∀ x ∈ (stopped (openedTwice.take 1)).handlers, x.progress ≠ .queued := by
      decide +kernel
    apply Option.not_isSome_iff_eq_none.mp
    intro hopen
    obtain ⟨x, ⟨hx, hp, _⟩, _⟩ := hcleared hopen
    exact hbegun x hx hp
  · have hopen :
        (((stopped openedTwice).run [.resume 0, .resume 1]).hub.store.get? ⟨"nb:1"⟩).isSome := by
      decide +kernel
    exact ⟨hopen, (cleared_but_for_called (hstopped openedTwice) rfl
      (hlate _ _ (by decide +kernel)) ⟨"nb:1"⟩).1 hopen⟩

end Dispatcher
end NotebookHub
