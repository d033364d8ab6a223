import NotebookHub.Proofs.Chaining
import NotebookHub.Proofs.Shutdown

namespace NotebookHub

namespace Notification

def closed : Notification → List String
  | .changeNotebook _ _ change =>
    match change.structural with
    | some s => s.closed
    | none => []
  | .closeNotebook _ cells => cells
  | .closeDocument uri => [uri]
  | _ => []

def closes (n : Notification) (k : Key) : Bool := n.closed.any fun uri => Uri.key uri = .ok k

theorem not_key_of_closes {n : Notification} {k : Key} (hn : n.closes k = false) :
    ∀ uri ∈ n.closed, Uri.key uri ≠ .ok k := by
  simpa [closes] using hn

end Notification

namespace Hub

def HasOpen (k : Key) (h : Hub) : Prop := (h.documents.get? k).isSome = true

section Open

variable {k : Key}

theorem enterDocument_keeps_open (item : TextItem) (mode : Mode) (predecessor : Option String) :
    Act.Preserves (HasOpen k) (enterDocument item mode predecessor) := by
  intro g hg
  cases ha : Address.of item.uri with
  | error e =>
    rw [enterDocument_on_error ha]
    exact hg
  | ok a =>
    obtain ⟨js, he⟩ := enterDocument_on ha mode predecessor g
    rw [he]
    unfold HasOpen
    rw [Registry.get?_enter]
    split
    · rfl
    · exact hg

theorem registerOpen_keeps_open (item : TextItem) (mode : Mode) (predecessor : Option String) :
    Act.Preserves (HasOpen k) (registerOpen item mode predecessor) :=
  registerOpen_preserves (fun _ _ hp => hp) mode predecessor
    fun _ _ => enterDocument_keeps_open _ _ _

theorem registerOpen_opens {item : TextItem} (hk : Uri.key item.uri = .ok k) (mode : Mode)
    (predecessor : Option String) :
    Act.Yields (fun _ => True) (registerOpen item mode predecessor) fun _ => HasOpen k := by
  intro h g n _ hrun
  obtain ⟨h₁, mode', _, hrun₁⟩ := Act.bind_eq_ok.mp hrun
  obtain ⟨_, _, hget, hrun₂⟩ := Act.bind_eq_ok.mp hrun₁
  cases hget
  obtain ⟨h₂, _, _, hrun₃⟩ := Act.bind_eq_ok.mp hrun₂
  obtain ⟨_, d, henter, hdone⟩ := Act.bind_eq_ok.mp hrun₃
  cases hdone
  obtain ⟨_, a, hresolve, _⟩ := Act.bind_eq_ok.mp henter
  have ha := (Act.resolve_eq_ok.mp hresolve).2
  obtain ⟨js, hon⟩ := enterDocument_on ha mode' predecessor h₂
  rw [henter] at hon
  cases hon
  have hkey : a.key = k := Except.ok.inj ((Address.of_eq_ok ha).2.1.symm.trans hk)
  simp [HasOpen, Registry.get?_enter, hkey]

theorem registerClose_keeps_open {uri : String} (hk : Uri.key uri ≠ .ok k) :
    Act.Preserves (HasOpen k) (registerClose uri) := by
  refine registerClose_preserves (fun _ _ hp => hp) fun a ha g hg => ?_
  have hne : a.key ≠ k := fun he => hk (he ▸ (Address.of_eq_ok ha).2.1)
  simpa [HasOpen, Registry.get?_close, hne] using hg

theorem registerChange_keeps_open (change : ContentChange) (mode : Mode) :
    Act.Preserves (HasOpen k) (registerChange change mode) := by
  refine registerChange_preserves (fun _ _ hp => hp) mode
    (.keyOf_bind fun key _ => .get_bind fun g hg => ?_)
  dsimp only
  split
  · exact hg
  · change ((g.documents.update key change.edits change.version).1.get? k).isSome = true
    rw [Registry.get?_update]
    split
    · simpa [HasOpen] using hg
    · exact hg

theorem stage_keeps_open (uri : String) (token : Token) :
    Act.Preserves (HasOpen k) (stage uri token) := by
  refine stage_preserves (fun _ _ hp => hp) token fun _ _ _ _ _ _ => linkCells_preserves
    fun p _ a _ g hg => ?_
  unfold HasOpen
  rw [Registry.get?_link]
  split
  · simpa [HasOpen] using hg
  · exact hg

theorem registerOpensInOrder_opens {items : List TextItem} (previous : Option String)
    (hk : ∃ item ∈ items, Uri.key item.uri = .ok k) :
    Act.Yields (fun _ => True) (registerOpensInOrder previous items) fun _ => HasOpen k := by
  induction items generalizing previous with
  | nil => simp at hk
  | cons item items ih =>
    by_cases hfirst : Uri.key item.uri = .ok k
    · have hrest : Act.Preserves (HasOpen k) (registerOpensInOrder (some item.uri) items) :=
        registerOpensInOrder_preserves _ fun i _ _ => registerOpen_keeps_open i .cell _
      exact (registerOpen_opens hfirst .cell previous).bind fun _ =>
        (Act.Yields.of_preserves hrest).bind fun _ => .pure fun _ hp => hp
    · have hrest : ∃ item ∈ items, Uri.key item.uri = .ok k := by simpa [hfirst] using hk
      exact Act.Yields.any.bind fun _ => (ih _ hrest).bind fun _ => .pure fun _ hp => hp

theorem registerOpens_opens {items : List TextItem} (predecessor : TextItem → Option String)
    (hk : ∃ item ∈ items, Uri.key item.uri = .ok k) :
    Act.Yields (fun _ => True) (registerOpens items predecessor) fun _ => HasOpen k := by
  unfold registerOpens
  induction items with
  | nil => simp at hk
  | cons item items ih =>
    rw [List.mapM_cons]
    by_cases hfirst : Uri.key item.uri = .ok k
    · refine (registerOpen_opens hfirst .cell _).bind fun _ => ?_
      refine Act.Yields.bind (.of_preserves (.mapM fun _ _ => registerOpen_keeps_open _ _ _))
        fun _ => ?_
      exact .pure fun _ hp => hp
    · have hrest : ∃ item ∈ items, Uri.key item.uri = .ok k := by simpa [hfirst] using hk
      exact Act.Yields.any.bind fun _ => (ih hrest).bind fun _ => .pure fun _ hp => hp

theorem registerCloses_keeps_open {uris : List String} (hk : ∀ uri ∈ uris, Uri.key uri ≠ .ok k) :
    Act.Preserves (HasOpen k) (registerCloses uris) :=
  .mapM fun uri hu => registerClose_keeps_open (hk uri hu)

end Open

theorem SameChains.hasOpen {h g : Hub} (hs : SameChains h g) {k : Key} (hk : h.HasOpen k) :
    g.HasOpen k := by
  have hsame := congrArg Option.isSome (hs.predecessors k)
  simp only [predecessorAt, Option.isSome_map] at hsame
  exact hsame.trans hk

section Begin

variable {n : Notification} {token : Option Token} {h g : Hub} {es : List Errand} {k : Key}

/-- A structural change leaves open what it opens and does not close. -/
theorem applyStructure_opens {key : Key} {notebook : Notebook} {change : StructureChange}
    (hitem : ∃ item ∈ change.opened, Uri.key item.uri = .ok k)
    (hk : ∀ uri ∈ change.closed, Uri.key uri ≠ .ok k) :
    Act.Yields (fun _ => True) (applyStructure key notebook change token) fun _ => HasOpen k := by
  unfold applyStructure
  dsimp only
  refine Act.Yields.any.bind fun _ => Act.Yields.any.bind fun _ => Act.Yields.any.bind fun _ => ?_
  refine (registerOpens_opens _ hitem).bind fun opened => ?_
  refine (Act.Yields.of_preserves (registerCloses_keeps_open hk)).bind fun closed => ?_
  cases token with
  | none => exact .pure fun _ hg => hg
  | some t =>
    exact (Act.Yields.of_preserves (stage_keeps_open _ t)).bind fun _ => .pure fun _ hg => hg

/-- A notification leaves open what it does not close. -/
theorem begin_keeps_open (token : Option Token) (hn : n.closes k = false) :
    Act.Preserves (HasOpen k) (begin n token) := by
  have hclosed := Notification.not_key_of_closes hn
  have hjot (n : Note) : Act.Preserves (HasOpen k) (Act.jot n) := fun _ hp => hp
  have hrecord (c : Call) :
      Act.Preserves (HasOpen k) (do modify (·.call c); return ([] : List Errand)) :=
    Act.Preserves.bind (.modify fun _ hp => hp) fun _ => .pure _
  cases n with
  | openNotebook notebook items =>
    exact beginOpen_preserves hjot token
      (openInStore_keeps (fun _ _ hp => hp) (fun _ _ hp => hp) notebook)
      (fun item _ _ => registerOpen_keeps_open item _ _) (stage_keeps_open _)
  | changeNotebook uri version change =>
    refine beginChange_preserves hjot token
      (fun key _ => applyVersion_keeps (fun _ _ hp => hp) key version _)
      (fun key _ _ notebook _ _ s hs => ?_) fun key _ => changeCells_preserves
        (applyData_keeps (fun _ _ hp => hp) (fun _ _ hp => hp) key)
          fun c _ => registerChange_keeps_open c .cell
    refine applyStructure_preserves hjot (fun _ hp => hp) (reindex_keeps (fun _ _ hp => hp) key)
      (fun item _ _ => registerOpen_keeps_open item _ _)
        (fun uri hu => registerClose_keeps_open (hclosed uri ?_))
      fun t _ => stage_keeps_open _ t
    simpa [Notification.closed, hs] using hu
  | saveNotebook uri => exact (hjot _).bind fun _ => .pure _
  | closeNotebook uri cells =>
    exact beginClose_preserves hjot (fun _ _ _ hp => hp)
      fun uri hu => registerClose_keeps_open (hclosed uri hu)
  | openDocument item =>
    exact routed_preserves ((registerOpen_keeps_open item _ _).bind fun _ => .pure _) (hrecord _)
  | changeDocument change =>
    exact routed_preserves ((registerChange_keeps_open change _).bind fun _ => .pure _) (hrecord _)
  | closeDocument uri =>
    have hk := registerClose_keeps_open (hclosed uri (by simp [Notification.closed]))
    exact routed_preserves (hk.bind fun _ => .pure _) (hrecord _)

/-- What a notification about a notebook opens and does not close is open afterwards, if it opens
the notebook or finds it open. -/
theorem begin_opens {N : Key} (hN : n.About N) (hopens : n.opens k = true) (hn : n.closes k = false)
    (hstands : n.opensNotebook N ∨ (h.store.get? N).isSome = true)
    (hrun : (begin n token).on h = (g, .ok es)) : g.HasOpen k := by
  have hclosed := Notification.not_key_of_closes hn
  cases n with
  | openNotebook notebook items =>
    have hitem : ∃ item ∈ items, Uri.key item.uri = .ok k := by
      simpa [Notification.opens, Notification.opened] using hopens
    have hall : Act.Yields (fun _ => True) (beginOpen notebook items token) fun _ => HasOpen k := by
      refine Act.Yields.any.bind fun _ => Act.Yields.any.bind fun _ => ?_
      refine (registerOpensInOrder_opens none hitem).bind fun _ => ?_
      have hstage := stageOnOpen_preserves token (stage_keeps_open (k := k) notebook.uri)
      exact (Act.Yields.of_preserves hstage).bind fun _ => .pure fun _ hg => hg
    exact hall h g es trivial hrun
  | changeNotebook uri version change =>
    have hopen : (h.store.get? N).isSome = true := by
      rcases hstands with ⟨_, _, he, _⟩ | hopen
      · cases he
      · exact hopen
    rcases beginChange_spec hN.2 hrun with ⟨hnone, _⟩ |
      ⟨notebook, h₁, h₂, left, edits, _, hfirst, hs, hlast, _⟩
    · simp [hnone] at hopen
    · refine hlast.hasOpen ?_
      unfold changeStructure at hs
      split at hs
      · rename_i hnone
        simp [Notification.opens, Notification.opened, hnone] at hopens
      · rename_i s hstructural
        obtain ⟨h₃, u, hu, hdone⟩ := Act.bind_eq_ok.mp hs
        cases hdone
        have hitem : ∃ item ∈ s.opened, Uri.key item.uri = .ok k := by
          simpa [Notification.opens, Notification.opened, hstructural] using hopens
        refine applyStructure_opens hitem (fun uri hu => ?_) h₁ _ u trivial hu
        exact hclosed uri (by simpa [Notification.closed, hstructural] using hu)
  | saveNotebook | closeNotebook => simp [Notification.opens, Notification.opened] at hopens
  | openDocument | changeDocument | closeDocument => cases hN.1

end Begin
end Hub

end NotebookHub
