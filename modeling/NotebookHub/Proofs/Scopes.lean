import NotebookHub.Proofs.Addresses
import NotebookHub.Proofs.Preservation
import NotebookHub.Proofs.Lookups
import NotebookHub.Proofs.Tickets

namespace NotebookHub

namespace Notification

def touched : Notification → List String
  | .openNotebook _ items => items.map TextItem.uri
  | .changeNotebook _ _ change =>
    (match change.structural with
      | some s => s.opened.map TextItem.uri ++ s.closed
      | none => []) ++ (change.content.getD []).map ContentChange.uri
  | .saveNotebook _ => []
  | .closeNotebook _ cells => cells
  | .openDocument item => [item.uri]
  | .changeDocument change => [change.uri]
  | .closeDocument uri => [uri]

def opened : Notification → List String
  | .openNotebook _ items => items.map TextItem.uri
  | .changeNotebook _ _ change =>
    match change.structural with
    | some s => s.opened.map TextItem.uri
    | none => []
  | .openDocument item => [item.uri]
  | _ => []

def listed : Notification → List String
  | .openNotebook notebook _ => notebook.cells.map Cell.document
  | .changeNotebook _ _ change =>
    match change.structural with
    | some s => s.inserted.map Cell.document
    | none => []
  | _ => []

def Touches (n : Notification) (k : Key) : Prop := ∃ uri ∈ n.touched, Uri.key uri = .ok k

def opens (n : Notification) (k : Key) : Bool := n.opened.any fun uri => Uri.key uri = .ok k

end Notification

def Document.unlinked (d : Document) : Document := { d with predecessor := none }

namespace Hub

def CellsWithin (S : Key → Prop) (C : String → Prop) (h : Hub) : Prop :=
  ∀ k n, S k → h.store.get? k = some n → ∀ d ∈ n.documents, C d

/-- `g` comes from `h` by a registration about notebooks `S` and documents `T`, where the notebooks
list only documents `C`. -/
structure Registers (S T : Key → Prop) (C : String → Prop) (h g : Hub) : Prop where
  settings : g.settings = h.settings
  route : g.route = h.route
  roster : g.roster = h.roster
  passes : g.passes = h.passes
  calls : ∃ cs, g.calls = h.calls ++ cs ∧ ∀ c ∈ cs, ∀ w m, c ≠ .told w m
  store : ∀ k, ¬ S k → g.store.get? k = h.store.get? k
  filed : h.store.Filed → g.store.Filed
  cells : h.CellsWithin S C → g.CellsWithin S C
  documents : ∀ k, ¬ T k →
    (g.documents.get? k).map Document.unlinked = (h.documents.get? k).map Document.unlinked
  lives : ∀ k, ¬ T k → g.documents.lives.get? k = h.documents.lives.get? k
  links : h.store.Filed → h.CellsWithin S C → ∀ k, ¬ T k → (∀ d, C d → Uri.key d ≠ .ok k) →
    g.documents.get? k = h.documents.get? k

namespace Registers

variable {S T : Key → Prop} {C : String → Prop} {h g : Hub}

theorem refl (h : Hub) : Registers S T C h h where
  settings := rfl
  route := rfl
  roster := rfl
  passes := rfl
  calls := ⟨[], by simp⟩
  store _ _ := rfl
  filed := id
  cells := id
  documents _ _ := rfl
  lives _ _ := rfl
  links _ _ _ _ _ := rfl

theorem note (r : Registers S T C h g) (n : Note) : Registers S T C h (g.note n) := { r with }

theorem withJournal (r : Registers S T C h g) (journal : List Note) :
    Registers S T C h { g with journal } := { r with }

/-- Something is recorded that no workspace was told. -/
theorem call (r : Registers S T C h g) {c : Call} (hc : ∀ w m, c ≠ .told w m) :
    Registers S T C h (g.call c) := by
  obtain ⟨cs, hcs, hrec⟩ := r.calls
  refine { r with calls := ⟨cs ++ [c], by simp [Hub.call, hcs], ?_⟩ }
  intro c' hm
  rcases List.mem_append.mp hm with hm | hm
  · exact hrec c' hm
  · obtain rfl := List.mem_singleton.mp hm
    exact hc

/-- Only documents `T` are changed in the registry. -/
theorem withDocuments (r : Registers S T C h g) {documents : Registry}
    (hd : ∀ k, ¬ T k → documents.get? k = g.documents.get? k)
    (hl : ∀ k, ¬ T k → documents.lives.get? k = g.documents.lives.get? k) :
    Registers S T C h { g with documents } :=
  { r with
    documents := fun k hk => by rw [hd k hk, r.documents k hk]
    lives := fun k hk => by rw [hl k hk, r.lives k hk]
    links := fun hf hc k hk hn => by rw [hd k hk, r.links hf hc k hk hn] }

/-- A cell of one of the notebooks is linked anew. -/
theorem withLink (r : Registers S T C h g) {d : String} {k : Key} (hk : Uri.key d = .ok k)
    (hd : h.store.Filed → h.CellsWithin S C → C d) (predecessor : Option String) :
    Registers S T C h { g with documents := g.documents.link k predecessor } :=
  { r with
    documents := fun k' hk' => by
      rw [← r.documents k' hk', Registry.get?_link]
      split
      · cases g.documents.get? k' <;> rfl
      · rfl
    lives := r.lives
    links := fun hf hc k' hk' hn => by
      have hne : k ≠ k' := fun he => hn d (hd hf hc) (he ▸ hk)
      simpa [Registry.get?_link, hne] using r.links hf hc k' hk' hn }

/-- Only notebooks `S` are changed in the store. -/
theorem withStore (r : Registers S T C h g) {store : Store}
    (hs : ∀ k, ¬ S k → store.get? k = g.store.get? k) (hf : g.store.Filed → store.Filed)
    (hc : h.CellsWithin S C → g.CellsWithin S C → CellsWithin S C { g with store }) :
    Registers S T C h { g with store } :=
  { r with
    store := fun k hk => by rw [hs k hk, r.store k hk]
    filed := fun h => hf (r.filed h)
    cells := fun h => hc h (r.cells h)
    links := r.links }

/-- Changing notebooks `S` without touching their lists. -/
theorem modifyStore (r : Registers S T C h g) {key : Key} (hS : S key) {f : Notebook → Notebook}
    (hu : ∀ n, (f n).uri = n.uri)
    (hd : h.CellsWithin S C → ∀ n, (∀ d ∈ n.documents, C d) → ∀ d ∈ (f n).documents, C d) :
    Registers S T C h { g with store := g.store.modify key f } := by
  refine r.withStore (fun k hk => ?_) (fun hf => hf.modify key hu) (fun hh hg k n hk hn => ?_)
  · have hne : key ≠ k := fun he => hk (he ▸ hS)
    rw [Store.get?_modify, if_neg hne]
  · dsimp only at hn
    rw [Store.get?_modify] at hn
    split at hn
    · obtain ⟨m, hm, rfl⟩ := Option.map_eq_some_iff.mp hn
      exact hd hh m (hg k m hk hm)
    · exact hg k n hk hn

end Registers

/-- What opening a document leaves, the journal apart. -/
theorem enterDocument_on {item : TextItem} {a : Address} (ha : Address.of item.uri = .ok a)
    (mode : Mode) (predecessor : Option String) (h : Hub) :
    let entered := h.documents.enter
      { address := a, language := item.language, version := item.version, text := item.text, mode,
        predecessor }
    ∃ js, (enterDocument item mode predecessor).on h =
      ({ h with documents := entered.1, journal := js }, .ok entered.2) := by
  simp only [enterDocument, Act.on_bind, Act.on_get, Act.resolve, ha, Act.on_lift_ok]
  split
  · exact ⟨_, rfl⟩
  · exact ⟨_, rfl⟩

theorem enterDocument_on_error {item : TextItem} {e : Uri.Error}
    (he : Address.of item.uri = .error e) {mode : Mode} {predecessor : Option String} {h : Hub} :
    (enterDocument item mode predecessor).on h = (h, .error (.uri e)) := by
  simp [enterDocument, Act.on_bind, Act.resolve, he]

section Operations

variable {S T : Key → Prop} {C : String → Prop} {h : Hub}

theorem jot_registers (n : Note) : Act.Preserves (Registers S T C h) (Act.jot n) :=
  fun _ r => r.note n

theorem enterDocument_registers {item : TextItem} (mode : Mode) (predecessor : Option String)
    (hT : ∀ k, Uri.key item.uri = .ok k → T k) :
    Act.Preserves (Registers S T C h) (enterDocument item mode predecessor) := by
  intro g hg
  cases ha : Address.of item.uri with
  | error e =>
    rw [enterDocument_on_error ha]
    exact hg
  | ok a =>
    obtain ⟨js, he⟩ := enterDocument_on ha mode predecessor g
    have hk := (Address.of_eq_ok ha).2.1
    rw [he]
    refine Registers.withDocuments (g := { g with journal := js }) (hg.withJournal js)
      (fun k hn => ?_) (fun k hn => ?_)
    · have hne : a.key ≠ k := fun he => hn (hT k (he ▸ hk))
      rw [Registry.get?_enter]
      exact if_neg hne
    · exact Registry.lives_enter fun he => hn (hT k (he ▸ hk))

theorem registerOpen_registers {item : TextItem} (mode : Mode) (predecessor : Option String)
    (hT : ∀ k, Uri.key item.uri = .ok k → T k) :
    Act.Preserves (Registers S T C h) (registerOpen item mode predecessor) :=
  registerOpen_preserves jot_registers mode predecessor fun _ _ => enterDocument_registers _ _ hT

theorem updateDocument_registers {change : ContentChange}
    (hT : ∀ k, Uri.key change.uri = .ok k → T k) :
    Act.Preserves (Registers S T C h) (updateDocument change) := by
  refine .keyOf_bind fun key hk => .get_bind fun g hg => ?_
  dsimp only
  split
  · exact hg.note _
  · refine hg.withDocuments (fun k hn => ?_) (fun k _ => by rw [Registry.lives_update])
    have hne : key ≠ k := fun he => hn (hT k (he ▸ hk))
    rw [Registry.get?_update, if_neg hne]

theorem registerChange_registers {change : ContentChange} (mode : Mode)
    (hT : ∀ k, Uri.key change.uri = .ok k → T k) :
    Act.Preserves (Registers S T C h) (registerChange change mode) :=
  registerChange_preserves jot_registers mode (updateDocument_registers hT)

theorem registerClose_registers {uri : String} (hT : ∀ k, Uri.key uri = .ok k → T k) :
    Act.Preserves (Registers S T C h) (registerClose uri) := by
  refine registerClose_preserves jot_registers fun a ha g r =>
    r.withDocuments (fun k hn => ?_) fun k _ => rfl
  have hne : a.key ≠ k := fun he => hn (hT k (he ▸ (Address.of_eq_ok ha).2.1))
  rw [Registry.get?_close, if_neg hne]

theorem mem_of_mem_linksAfter {p : String × Option String} {ds : List String}
    {previous : Option String} (hp : p ∈ linksAfter previous ds) : p.1 ∈ ds := by
  induction ds generalizing previous with
  | nil => simp [linksAfter] at hp
  | cons d ds ih =>
    rcases List.mem_cons.mp hp with rfl | hp
    · simp
    · exact List.mem_cons_of_mem d (ih hp)

/-- Cells are linked only in the chain of a notebook that was registered. -/
theorem stage_registers {uri : String} (token : Token)
    (hS : h.store.Filed → ∀ k, Uri.key uri = .ok k → S k) :
    Act.Preserves (Registers S T C h) (stage uri token) := by
  refine stage_preserves jot_registers token fun key hk g notebook hg hn => ?_
  refine linkCells_preserves
    fun p hp a ha g' r => r.withLink (Address.of_eq_ok ha).2.1 (fun hf hc => ?_) p.2
  exact hg.cells hc key notebook (hS hf key hk) hn p.1 (mem_of_mem_linksAfter hp)

theorem reindex_registers (key : Key) : Act.Preserves (Registers S T C h) (reindex key) := by
  intro g hg
  rw [reindex_on]
  refine hg.withStore (fun k _ => Store.get?_reindex ..) (fun hf k n hn => ?_)
    (fun _ hc k n hk hn => ?_)
  · rw [Store.get?_reindex] at hn
    exact hf k n hn
  · exact hc k n hk (by simpa [Store.get?_reindex] using hn)

/-- Opening a notebook puts its own list in place of whatever was there. -/
theorem openInStore_registers {item : NotebookItem} (hS : ∀ k, Uri.key item.uri = .ok k → S k)
    (hC : ∀ d ∈ item.cells.map Cell.document, C d) :
    Act.Preserves (Registers S T C h) (openInStore item) := by
  refine openInStore_preserves jot_registers (fun key g r => ?_) fun key hk => ?_
  · exact r.withStore (fun _ _ => rfl) id fun _ hc => hc
  refine putInStore_preserves
    (fun metadata g r => r.withStore (fun k hn => ?_) (fun hf k n hn => ?_)
    fun _ hc k n hk' hn => ?_) (reindex_registers key)
  · have hne : key ≠ k := fun he => hn (he ▸ hS key hk)
    simp [Store.get?, hne]
  · simp only [Store.get?, Table.get?_insert] at hn
    split at hn
    · rename_i he
      obtain rfl := Option.some.inj hn
      exact he ▸ hk
    · exact hf k n hn
  · simp only [Store.get?, Table.get?_insert] at hn
    split at hn
    · obtain rfl := Option.some.inj hn
      exact hC
    · exact hc k n hk' hn

theorem applyVersion_registers {key : Key} (hS : S key) (version : Int) (metadata : Option Json) :
    Act.Preserves (Registers S T C h) (applyVersion key version metadata) := by
  refine (Act.Preserves.modify fun g r => r.modifyStore hS (fun _ => rfl) fun _ _ hd => hd).bind
    fun _ => ?_
  split
  · exact .pure _
  · exact (metadataOf_preserves _).bind fun _ =>
      .modify fun g r => r.modifyStore hS (fun _ => rfl) fun _ _ hd => hd

theorem applyData_registers {key : Key} (hS : S key) (updates : List Cell) :
    Act.Preserves (Registers S T C h) (applyData key updates) := by
  refine applyData_preserves jot_registers fun notebook g hn r =>
    r.modifyStore hS (fun _ => rfl) fun hh _ _ d hm => ?_
  change d ∈ (applyCellData notebook.cells updates).1.map Cell.document at hm
  rw [documents_applyCellData] at hm
  exact r.cells hh key notebook hS hn d hm

theorem applyStructure_registers {key : Key} {notebook : Notebook} {change : StructureChange}
    (token : Option Token) (hS : S key) (hu : h.store.Filed → Uri.key notebook.uri = .ok key)
    (hd : h.CellsWithin S C → ∀ d ∈ notebook.documents, C d)
    (hC : ∀ d ∈ change.inserted.map Cell.document, C d)
    (hT : ∀ uri ∈ change.opened.map TextItem.uri ++ change.closed, ∀ k, Uri.key uri = .ok k → T k) :
    Act.Preserves (Registers S T C h) (applyStructure key notebook change token) := by
  have hcells : h.CellsWithin S C → ∀ d ∈ (splice notebook.cells change.start change.deleteCount
      change.inserted).1.map Cell.document, C d := by
    intro hh d hm
    obtain ⟨c, hc, rfl⟩ := List.mem_map.mp hm
    rcases mem_of_mem_splice hc with hc | hc
    · exact hd hh _ (List.mem_map_of_mem hc)
    · exact hC _ (List.mem_map_of_mem hc)
  refine applyStructure_preserves jot_registers
    (fun g r => r.modifyStore hS (fun _ => rfl) fun hh _ _ => hcells hh) (reindex_registers key)
    (fun item hi _ =>
      registerOpen_registers _ _ (hT item.uri (List.mem_append_left _ (List.mem_map_of_mem hi))))
    (fun uri hi => registerClose_registers (hT uri (List.mem_append_right _ hi)))
    fun t _ => stage_registers t fun hf k hk => ?_
  rw [hu hf] at hk
  exact Except.ok.inj hk ▸ hS

theorem changeCells_registers {key : Key} {change : NotebookChange} (hS : S key)
    (hT : ∀ uri ∈ (change.content.getD []).map ContentChange.uri, ∀ k, Uri.key uri = .ok k → T k) :
    Act.Preserves (Registers S T C h) (changeCells key change) :=
  changeCells_preserves (applyData_registers hS) fun c hc =>
    registerChange_registers .cell (hT c.uri (List.mem_map_of_mem hc))

end Operations

section Begin

variable {C : String → Prop} {h : Hub}

theorem beginOpen_registers (notebook : NotebookItem) (items : List TextItem) (token : Option Token)
    (hC : ∀ d ∈ (Notification.openNotebook notebook items).listed, C d) :
    Act.Preserves (Registers (Notification.openNotebook notebook items).About
      (Notification.openNotebook notebook items).Touches C h) (beginOpen notebook items token) := by
  have hS : ∀ k, Uri.key notebook.uri = .ok k →
      (Notification.openNotebook notebook items).About k :=
    fun k hk => ⟨rfl, hk⟩
  exact beginOpen_preserves jot_registers token (openInStore_registers hS hC)
    (fun item hi _ => registerOpen_registers _ _ fun k hk => ⟨item.uri, List.mem_map_of_mem hi, hk⟩)
    fun t => stage_registers t fun _ => hS

theorem beginChange_registers (uri : String) (version : Int) (change : NotebookChange)
    (token : Option Token)
    (hC : ∀ d ∈ (Notification.changeNotebook uri version change).listed, C d) :
    Act.Preserves (Registers (Notification.changeNotebook uri version change).About
      (Notification.changeNotebook uri version change).Touches C h)
      (beginChange uri version change token) := by
  have hS : ∀ k, Uri.key uri = .ok k → (Notification.changeNotebook uri version change).About k :=
    fun k hk => ⟨rfl, hk⟩
  refine beginChange_preserves jot_registers token
    (fun key hk => applyVersion_registers (hS key hk) version _)
    (fun key hk g notebook hg hn s hs => ?_) fun key hk =>
      changeCells_registers (hS key hk) fun u hu k hk => ⟨u, List.mem_append_right _ hu, hk⟩
  refine applyStructure_registers token (hS key hk) (fun hf => hg.filed hf key notebook hn)
    (fun hh => hg.cells hh key notebook (hS key hk) hn) (fun d hd => hC d ?_)
      fun u hu k hk => ⟨u, ?_, hk⟩
  · simpa [Notification.listed, hs] using hd
  · simp only [Notification.touched, hs]
    exact List.mem_append_left _ hu

theorem beginClose_registers (uri : String) (cells : List String) :
    Act.Preserves (Registers (Notification.closeNotebook uri cells).About
      (Notification.closeNotebook uri cells).Touches C h) (beginClose uri cells) := by
  refine beginClose_preserves jot_registers (fun key hk g r => r.withStore (fun k hn => ?_)
    (fun hf => hf.close key) fun _ hc k n hk' hn => ?_) fun u hu => registerClose_registers
      fun k hk => ⟨u, hu, hk⟩
  · have hne : key ≠ k := fun he => hn (he ▸ ⟨rfl, hk⟩)
    rw [Store.get?_close, if_neg hne]
  · dsimp only at hn
    rw [Store.get?_close] at hn
    split at hn
    · contradiction
    · exact hc k n hk' hn

/-- Whatever a notification registers, and wherever it fails, it changes nothing but its own. -/
theorem begin_registers (n : Notification) (token : Option Token) (hC : ∀ d ∈ n.listed, C d) :
    Act.Preserves (Registers n.About n.Touches C h) (begin n token) := by
  have hrecord (n' : Notification) (c : Call) (hc : ∀ w m, c ≠ .told w m) : Act.Preserves
      (Registers n'.About n'.Touches C h) (do modify (·.call c); return ([] : List Errand)) :=
    (Act.Preserves.modify fun g r => r.call hc).bind fun _ => .pure _
  cases n with
  | openNotebook notebook items => exact beginOpen_registers notebook items token hC
  | changeNotebook uri version change => exact beginChange_registers uri version change token hC
  | closeNotebook uri cells => exact beginClose_registers uri cells
  | saveNotebook uri => exact Act.Preserves.bind (jot_registers _) fun _ => .pure _
  | openDocument item =>
    refine routed_preserves
      ((registerOpen_registers _ _ fun k hk => ⟨item.uri, ?_, hk⟩).bind fun _ => .pure _)
      (hrecord _ _ fun _ _ => nofun)
    simp [Notification.touched]
  | changeDocument change =>
    refine routed_preserves
      ((registerChange_registers _ fun k hk => ⟨change.uri, ?_, hk⟩).bind fun _ => .pure _)
      (hrecord _ _ fun _ _ => nofun)
    simp [Notification.touched]
  | closeDocument uri =>
    refine routed_preserves
      ((registerClose_registers fun k hk => ⟨uri, ?_, hk⟩).bind fun _ => .pure _)
      (hrecord _ _ fun _ _ => nofun)
    simp [Notification.touched]

theorem registers_of_begin {n : Notification} {token : Option Token} {g : Hub}
    {r : Except Fault (List Errand)} (hrun : (begin n token).on h = (g, r))
    (hC : ∀ d ∈ n.listed, C d) :
    Registers n.About n.Touches C h g := by
  have hr := begin_registers n token hC h (.refl h)
  rwa [hrun] at hr

end Begin
end Hub
end NotebookHub
