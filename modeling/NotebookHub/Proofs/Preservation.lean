import NotebookHub.Proofs.Actions

namespace NotebookHub.Hub

theorem reindex_on (key : Key) (h : Hub) :
    (reindex key).on h =
      ({ h with store := (h.store.reindex key).1 }, (h.store.reindex key).2.mapError .uri) := by
  simp only [reindex, Act.on_bind, Act.on_get, Act.on_modify]
  cases (h.store.reindex key).2 <;> rfl

theorem modeFor_preserves {P : Hub → Prop} (uri : String) (mode : Mode) :
    Act.Preserves P (modeFor uri mode) := by
  cases mode with
  | cell => exact .pure _
  | file => exact (Act.Preserves.lift _).bind fun _ => .pure _

theorem metadataOf_preserves {P : Hub → Prop} (v : Json) : Act.Preserves P (metadataOf v) := by
  unfold metadataOf
  split
  · exact .pure _
  · exact .throw _

def putInStore (item : NotebookItem) (key : Key) : Act Unit := do
  let metadata ← item.metadata.mapM metadataOf
  let notebook : Notebook := { item with metadata }
  modify fun h =>
    { h with store := { h.store with notebooks := h.store.notebooks.insert key notebook } }
  reindex key

/-- What is left of an opening once its notebook is out of the index. -/
theorem openInStore_eq (item : NotebookItem) :
    openInStore item = (do
      let key ← Act.keyOf item.uri
      if ((← get).store.get? key).isSome then
        Act.jot (.notebookOpenedAgain item.uri)
        modify fun h => { h with store := h.store.unindex key }
      putInStore item key) := rfl

section Parts

variable {P : Hub → Prop}

theorem putInStore_preserves {item : NotebookItem} {key : Key}
    (hput : ∀ metadata g, P g → P { g with
      store := { g.store with notebooks := g.store.notebooks.insert key { item with metadata } } })
    (hreindex : Act.Preserves P (reindex key)) : Act.Preserves P (putInStore item key) := by
  refine Act.Preserves.bind ?_ fun metadata => (Act.Preserves.modify (hput metadata)).bind
    fun _ => hreindex
  cases item.metadata with
  | none => exact .pure _
  | some v => exact (metadataOf_preserves v).map some

theorem registerOpensInOrder_preserves {items : List TextItem} (previous : Option String)
    (hopen : ∀ item ∈ items, ∀ previous, Act.Preserves P (registerOpen item .cell previous)) :
    Act.Preserves P (registerOpensInOrder previous items) := by
  induction items generalizing previous with
  | nil => exact .pure _
  | cons item items ih =>
    exact (hopen item (by simp) _).bind fun _ =>
      (ih _ fun i hi => hopen i (List.mem_cons_of_mem item hi)).bind fun _ => .pure _

theorem linkCells_preserves {pairs : List (String × Option String)}
    (hlink : ∀ p ∈ pairs, ∀ a, Address.of p.1 = .ok a →
      ∀ g, P g → P { g with documents := g.documents.link a.key p.2 }) :
    Act.Preserves P (linkCells pairs) := by
  induction pairs with
  | nil => exact .pure _
  | cons p pairs ih =>
    refine .resolve_bind
      fun a ha => (Act.Preserves.modify (hlink p (by simp) a ha)).bind fun _ => ?_
    exact (ih fun q hq => hlink q (List.mem_cons_of_mem p hq)).bind fun _ => .pure _

theorem stageOnOpen_preserves {uri : String} (token : Option Token)
    (hstage : ∀ t, Act.Preserves P (stage uri t)) : Act.Preserves P (stageOnOpen uri token) := by
  unfold stageOnOpen
  split
  · exact .pure _
  · refine .get_bind fun g hg => ?_
    split
    · exact (hstage _).bind (fun _ => .pure _) g hg
    · exact hg

/-- What comes of the notebook's being put in its place comes of its being opened. -/
theorem openInStore_yields {item : NotebookItem} {key : Key} {Q : Unit → Hub → Prop}
    (hk : Uri.key item.uri = .ok key) (hput : Act.Yields (fun _ => True) (putInStore item key) Q) :
    Act.Yields P (openInStore item) Q := by
  rw [openInStore_eq]
  refine .lift_bind fun key' hk' => .get_bind fun h => ?_
  obtain rfl : key = key' := Except.ok.inj (hk.symm.trans hk')
  dsimp only
  split
  · exact Act.Yields.any.bind fun _ => Act.Yields.any.bind fun _ => hput
  · exact hput.mono fun _ _ => trivial

theorem changeCells_preserves {key : Key} {change : NotebookChange}
    (hdata : ∀ updates, Act.Preserves P (applyData key updates))
    (hcontent : ∀ c ∈ change.content.getD [], Act.Preserves P (registerChange c .cell)) :
    Act.Preserves P (changeCells key change) := by
  have hrest : Act.Preserves P (registerContent (change.content.getD [])) :=
    (Act.Preserves.mapM hcontent).bind fun _ => .pure _
  unfold changeCells
  split
  · exact hrest
  · exact (hdata _).bind fun _ => hrest

/-- Documents go to the registry or to the recorder. -/
theorem routed_preserves {a b : Act (List Errand)} (ha : Act.Preserves P a)
    (hb : Act.Preserves P b) :
    Act.Preserves P (do
      match (← get).route with
      | .registry => a
      | .recorder => b) := by
  refine .get_bind fun g hg => ?_
  split
  · exact ha g hg
  · exact hb g hg

variable (hjot : ∀ n, Act.Preserves P (Act.jot n))

include hjot

theorem registerOpen_preserves {item : TextItem} (mode : Mode) (predecessor : Option String)
    (henter : ∀ language mode,
    Act.Preserves P (enterDocument { item with language } mode predecessor)) :
    Act.Preserves P (registerOpen item mode predecessor) := by
  refine (modeFor_preserves _ _).bind fun mode => .get_bind fun h hp => ?_
  dsimp only
  exact (hjot _).bind (fun _ => (henter _ mode).bind fun _ => .pure _) h hp

theorem registerClose_preserves {uri : String} (hclose : ∀ a, Address.of uri = .ok a →
      ∀ g, P g → P { g with documents := g.documents.close a.key }) :
    Act.Preserves P (registerClose uri) :=
  (hjot _).bind fun _ => .resolve_bind
    fun a ha => (Act.Preserves.modify (hclose a ha)).bind fun _ => .pure _

theorem registerChange_preserves {change : ContentChange} (mode : Mode)
    (hupdate : Act.Preserves P (updateDocument change)) :
    Act.Preserves P (registerChange change mode) := by
  refine hupdate.bind fun r => ?_
  rcases r with _ | ⟨d, settled⟩
  · exact .pure _
  · exact (hjot _).bind fun _ => .pure _

theorem stage_preserves {uri : String} (token : Token)
    (hlink : ∀ key, Uri.key uri = .ok key → ∀ g notebook, P g → g.store.get? key = some notebook →
      Act.Preserves P (linkCells (chainLinks notebook.documents))) :
    Act.Preserves P (stage uri token) := by
  refine .keyOf_bind fun key hk => .get_bind fun g hg => ?_
  split
  · exact hg
  · rename_i notebook hn
    split
    · exact hg
    split
    · exact hjot _ g hg
    · exact (hlink key hk g notebook hg hn).bind (fun _ => .pure _) g hg

theorem openInStore_preserves {item : NotebookItem}
    (hunindex : ∀ key g, P g → P { g with store := g.store.unindex key })
    (hput : ∀ key, Uri.key item.uri = .ok key → Act.Preserves P (putInStore item key)) :
    Act.Preserves P (openInStore item) := by
  rw [openInStore_eq]
  refine .keyOf_bind fun key hk => .get_bind fun h hp => ?_
  dsimp only
  split
  · exact (hjot _).bind
      (fun _ => (Act.Preserves.modify (hunindex key)).bind fun _ => hput key hk) h hp
  · exact hput key hk h hp

theorem applyData_preserves {key : Key} {updates : List Cell}
    (hset : ∀ notebook g, g.store.get? key = some notebook → P g → P { g with
      store := g.store.modify key
        fun n => { n with cells := (applyCellData notebook.cells updates).1 } }) :
    Act.Preserves P (applyData key updates) := by
  refine .get_bind fun h hp => ?_
  split
  · exact hp
  · rename_i notebook hn
    rw [Act.on_bind, Act.on_modify]
    refine (?_ : Act.Preserves P _) _ (hset notebook h hn hp)
    split
    · exact hjot _
    · exact .pure _

theorem applyStructure_preserves {key : Key} {notebook : Notebook} {change : StructureChange}
    {token : Option Token}
    (hsplice : ∀ g, P g → P { g with store := g.store.modify key fun n =>
      { n with cells := (splice notebook.cells change.start change.deleteCount change.inserted).1 }
      })
    (hreindex : Act.Preserves P (reindex key))
    (hopen : ∀ item ∈ change.opened, ∀ previous, Act.Preserves P (registerOpen item .cell previous))
    (hclose : ∀ uri ∈ change.closed, Act.Preserves P (registerClose uri))
    (hstage : ∀ t, token = some t → Act.Preserves P (stage notebook.uri t)) :
    Act.Preserves P (applyStructure key notebook change token) := by
  refine (Act.Preserves.modify hsplice).bind fun _ => hreindex.bind fun _ =>
    (hjot _).bind fun _ => ?_
  refine Act.Preserves.bind (.mapM fun item hi => hopen item hi _) fun opened => ?_
  refine Act.Preserves.bind (.mapM hclose) fun closed => ?_
  cases token with
  | none => exact .pure _
  | some t => exact (hstage t rfl).bind fun links => .pure _

theorem beginOpen_preserves {notebook : NotebookItem} {items : List TextItem} (token : Option Token)
    (hopen : Act.Preserves P (openInStore notebook))
    (hitems : ∀ item ∈ items, ∀ previous, Act.Preserves P (registerOpen item .cell previous))
    (hstage : ∀ t, Act.Preserves P (stage notebook.uri t)) :
    Act.Preserves P (beginOpen notebook items token) := by
  refine (hjot _).bind fun _ => hopen.bind fun _ => ?_
  refine (registerOpensInOrder_preserves none hitems).bind fun notices => ?_
  exact (stageOnOpen_preserves token hstage).bind fun pass => .pure _

theorem beginChange_preserves {uri : String} {version : Int} {change : NotebookChange}
    (token : Option Token)
    (hversion : ∀ key, Uri.key uri = .ok key →
    Act.Preserves P (applyVersion key version change.metadata))
    (hstructure : ∀ key, Uri.key uri = .ok key → ∀ g notebook, P g →
    g.store.get? key = some notebook →
      ∀ s, change.structural = some s → Act.Preserves P (applyStructure key notebook s token))
    (hcells : ∀ key, Uri.key uri = .ok key → Act.Preserves P (changeCells key change)) :
    Act.Preserves P (beginChange uri version change token) := by
  refine (hjot _).bind fun _ => .keyOf_bind fun key hk => .get_bind fun g hg => ?_
  split
  · exact hjot _ g hg
  · rename_i notebook hn
    refine (hversion key hk).bind (fun _ => ?_) g hg
    refine Act.Preserves.bind ?_ fun errands => (hcells key hk).bind fun edits => .pure _
    unfold changeStructure
    cases hs : change.structural with
    | none => exact .pure _
    | some s => exact (hstructure key hk g notebook hg hn s hs).bind fun u => .pure _

theorem beginClose_preserves {uri : String} {cells : List String}
    (hclose : ∀ key, Uri.key uri = .ok key → ∀ g, P g → P { g with store := g.store.close key })
    (hcells : ∀ u ∈ cells, Act.Preserves P (registerClose u)) :
    Act.Preserves P (beginClose uri cells) := by
  refine .keyOf_bind fun key hk => .get_bind fun g hg => ?_
  split
  · exact hjot _ g hg
  · refine (Act.Preserves.modify (hclose key hk)).bind (fun _ => (hjot _).bind fun _ => ?_) g hg
    exact (Act.Preserves.mapM hcells).bind fun notices => .pure _

end Parts

section Store

variable {P : Hub → Prop} (hstore : ∀ g store, P g → P { g with store })
  (hnote : ∀ g n, P g → P (g.note n))

include hstore

theorem reindex_keeps (key : Key) : Act.Preserves P (reindex key) := by
  intro h hp
  rw [reindex_on]
  exact hstore h _ hp

theorem applyVersion_keeps (key : Key) (version : Int) (metadata : Option Json) :
    Act.Preserves P (applyVersion key version metadata) := by
  refine (Act.Preserves.modify fun g => hstore g _).bind fun _ => ?_
  split
  · exact .pure _
  · exact (metadataOf_preserves _).bind fun _ => .modify fun g => hstore g _

include hnote

theorem openInStore_keeps (item : NotebookItem) : Act.Preserves P (openInStore item) :=
  openInStore_preserves (fun n g => hnote g n) (fun _ g => hstore g _) fun key _ =>
    putInStore_preserves (fun _ g => hstore g _) (reindex_keeps hstore key)

theorem applyData_keeps (key : Key) (updates : List Cell) :
    Act.Preserves P (applyData key updates) :=
  applyData_preserves (fun n g => hnote g n) fun _ g _ => hstore g _

end Store

section Documents

variable {P : Hub → Prop} (hdocuments : ∀ g documents, P g → P { g with documents })
  (hnote : ∀ g n, P g → P (g.note n))

include hdocuments hnote

theorem enterDocument_keeps (item : TextItem) (mode : Mode) (predecessor : Option String) :
    Act.Preserves P (enterDocument item mode predecessor) := by
  refine .resolve_bind fun a _ => .get_bind fun h hp => ?_
  have henter (documents : Registry) (d : Document) : Act.Preserves P (do
      modify ({ · with documents })
      return d) :=
    (Act.Preserves.modify fun g => hdocuments g _).bind fun _ => .pure _
  dsimp only
  split
  · exact ((Act.Preserves.modify fun g => hnote g _).bind fun _ => henter _ _) h hp
  · exact henter _ _ h hp

theorem registerOpen_keeps (item : TextItem) (mode : Mode) (predecessor : Option String) :
    Act.Preserves P (registerOpen item mode predecessor) :=
  registerOpen_preserves (fun n g => hnote g n) mode predecessor fun _ _ =>
    enterDocument_keeps hdocuments hnote _ _ _

theorem registerClose_keeps (uri : String) : Act.Preserves P (registerClose uri) :=
  registerClose_preserves (fun n g => hnote g n) fun _ _ g => hdocuments g _

theorem registerOpens_keeps (items : List TextItem) (predecessor : TextItem → Option String) :
    Act.Preserves P (registerOpens items predecessor) :=
  .mapM fun _ _ => registerOpen_keeps hdocuments hnote _ _ _

theorem registerOpensInOrder_keeps (previous : Option String) (items : List TextItem) :
    Act.Preserves P (registerOpensInOrder previous items) :=
  registerOpensInOrder_preserves previous fun _ _ _ => registerOpen_keeps hdocuments hnote _ _ _

theorem registerCloses_keeps (uris : List String) : Act.Preserves P (registerCloses uris) :=
  .mapM fun _ _ => registerClose_keeps hdocuments hnote _

theorem registerChange_keeps (change : ContentChange) (mode : Mode) :
    Act.Preserves P (registerChange change mode) := by
  refine registerChange_preserves (fun n g => hnote g n) mode
    (.keyOf_bind fun key _ => .get_bind fun h hp => ?_)
  dsimp only
  split
  · exact hnote _ _ hp
  · exact hdocuments _ _ hp

theorem stage_keeps (uri : String) (token : Token) : Act.Preserves P (stage uri token) :=
  stage_preserves (fun n g => hnote g n) token fun _ _ _ _ _ _ =>
    linkCells_preserves fun _ _ _ _ g => hdocuments g _

end Documents
end NotebookHub.Hub
