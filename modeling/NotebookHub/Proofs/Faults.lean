import NotebookHub.Proofs.Splices

namespace NotebookHub

variable {α β : Type}

def failure? : Except Fault α → Option Fault
  | .ok _ => none
  | .error e => some e

theorem findSome?_cons_or (f : α → Option β) (x : α) (l : List α) :
    (x :: l).findSome? f = (f x).or (l.findSome? f) := by
  rw [List.findSome?_cons]
  cases f x <;> rfl

namespace Act

/-- On a hub of the kind `P`, `a` fails with this fault, or succeeds when there is none. -/
def Faults (P : Hub → Prop) (a : Act α) (fault : Option Fault) : Prop :=
  ∀ h, P h → failure? (a.on h).2 = fault

namespace Faults

variable {P : Hub → Prop} {a : Act α} {c c' : Option Fault}

theorem pure (r : α) : Faults P (pure r : Act α) none := fun _ _ => rfl

theorem modify (f : Hub → Hub) : Faults P (modify f : Act Unit) none := fun _ _ => rfl

theorem jot (n : Note) : Faults P (jot n) none := .modify _

theorem anywhere (ha : Faults (fun _ => True) a c) : Faults P a c := fun h _ => ha h trivial

theorem of_ok (ha : ∀ h, P h → ∃ g r, a.on h = (g, .ok r)) : Faults P a none := by
  intro h hp
  obtain ⟨g, r, hr⟩ := ha h hp
  rw [hr]
  rfl

/-- The first part's fault comes before the second's. -/
theorem bind {Q : α → Hub → Prop} {f : α → Act β} (ha : Faults P a c) (hq : Yields P a Q)
    (hf : ∀ x, Faults (Q x) (f x) c') : Faults P (a >>= f) (c.or c') := by
  intro h hp
  have hc := ha h hp
  rw [on_bind]
  rcases he : a.on h with ⟨g, e | x⟩ <;> rw [he] at hc <;> subst hc
  · rfl
  · exact hf x g (hq h g x hp he)

theorem seq {f : α → Act β} (ha : Faults P a c) (hf : ∀ x, Faults (fun _ => True) (f x) c') :
    Faults P (a >>= f) (c.or c') :=
  ha.bind .any hf

/-- What follows cannot fail. -/
theorem last {f : α → Act β} (ha : Faults P a c) (hf : ∀ x, Faults (fun _ => True) (f x) none) :
    Faults P (a >>= f) c := by
  have hall := ha.seq hf
  rwa [Option.or_none] at hall

/-- What went before cannot fail. -/
theorem past {Q : α → Hub → Prop} {f : α → Act β} (ha : Faults P a none) (hq : Yields P a Q)
    (hf : ∀ x, Faults (Q x) (f x) c) : Faults P (a >>= f) c :=
  ha.bind hq hf

theorem keyOf_bind {uri : String} {k : Key} {f : Key → Act α} (hk : Uri.key uri = .ok k)
    (hf : Faults P (f k) c) : Faults P (keyOf uri >>= f) c := by
  intro h hp
  rw [on_bind, keyOf, hk]
  exact hf h hp

theorem get_bind {f : Hub → Act α} (hf : ∀ h, P h → Faults (fun g => g = h) (f h) c) :
    Faults P (get >>= f) c := by
  intro h hp
  rw [on_bind]
  exact hf h hp h rfl

theorem map {f : α → β} (ha : Faults P a c) : Faults P (f <$> a) c := by
  intro h hp
  have hc := ha h hp
  rw [on_map]
  rcases he : a.on h with ⟨g, e | x⟩ <;> rw [he] at hc <;> exact hc

theorem mapM {f : α → Act β} {c : α → Option Fault} (hf : ∀ x, Faults (fun _ => True) (f x) (c x))
    (l : List α) : Faults (fun _ => True) (l.mapM f) (l.findSome? c) := by
  induction l with
  | nil => exact pure []
  | cons x l ih =>
    rw [List.mapM_cons, findSome?_cons_or]
    exact (hf x).seq fun y => ih.last fun ys => pure (y :: ys)

end Faults
end Act

def Uri.fault? (uri : String) : Option Fault := failure? ((Uri.key uri).mapError .uri)

def Metadata.fault? (v : Json) : Option Fault := failure? ((Metadata.ofJson v).mapError .metadata)

theorem Uri.fault?_eq_none {uri : String} : Uri.fault? uri = none ↔ ∃ k, Uri.key uri = .ok k := by
  unfold Uri.fault?
  cases Uri.key uri <;> simp [failure?, Except.mapError]

theorem Uri.fault?_of_key {uri : String} {k : Key} (hk : Uri.key uri = .ok k) :
    Uri.fault? uri = none :=
  Uri.fault?_eq_none.mpr ⟨k, hk⟩

theorem Uri.fault?_of_error {uri : String} {e : Uri.Error} (he : Uri.key uri = .error e) :
    Uri.fault? uri = some (.uri e) := by
  simp [Uri.fault?, he, Except.mapError, failure?]

/-- What has no key has no address, for the same reason. -/
theorem Address.of_error {uri : String} {e : Uri.Error} (he : Uri.key uri = .error e) :
    Address.of uri = .error e := by
  simp [Address.of, he, bind, Except.bind]

/-- Where it cannot be told whether a URI is that of a cell, the URI has no key, for the same
reason. -/
theorem Uri.key_of_isCell_error {uri : String} {e : Uri.Error} (he : Uri.isCell uri = .error e) :
    Uri.key uri = .error e := by
  unfold Uri.isCell Uri.scheme at he
  unfold Uri.key
  cases hp : Uri.parts uri.toList with
  | error e' =>
    simp only [hp, Except.map, Except.error.injEq] at he
    rw [he]
    rfl
  | ok p => simp [hp, Except.map] at he

namespace Store

/-- Indexing gets as far as the first document without a key. -/
theorem claim_fault (notebook : Key) (ds : List String) (owners : Table Key Key) :
    failure? ((claim notebook ds owners).2.mapError .uri) = ds.findSome? Uri.fault? := by
  induction ds generalizing owners with
  | nil => rfl
  | cons d ds ih =>
    rw [claim, List.findSome?_cons]
    cases hd : Uri.key d with
    | error e => simp [Uri.fault?_of_error hd, failure?, Except.mapError]
    | ok k => simpa [Uri.fault?_of_key hd] using ih (owners.insert k notebook)

end Store

namespace Hub

section Operations

variable {P : Hub → Prop}

theorem keyOf_faults (uri : String) : Act.Faults P (Act.keyOf uri) (Uri.fault? uri) := by
  intro h _
  unfold Act.keyOf
  cases hk : Uri.key uri with
  | error e => rw [Uri.fault?_of_error hk]; rfl
  | ok k => rw [Uri.fault?_of_key hk]; rfl

theorem resolve_faults (uri : String) : Act.Faults P (Act.resolve uri) (Uri.fault? uri) := by
  intro h _
  unfold Act.resolve
  cases hk : Uri.key uri with
  | error e =>
    rw [Uri.fault?_of_error hk, Address.of_error hk]
    rfl
  | ok k =>
    obtain ⟨a, ha, _⟩ := Address.of_key hk
    rw [Uri.fault?_of_key hk, ha]
    rfl

theorem metadataOf_faults (v : Json) : Act.Faults P (metadataOf v) (Metadata.fault? v) := by
  intro h _
  unfold metadataOf Metadata.fault?
  cases Metadata.ofJson v <;> rfl

theorem enterDocument_faults (item : TextItem) (mode : Mode) (predecessor : Option String) :
    Act.Faults P (enterDocument item mode predecessor) (Uri.fault? item.uri) := by
  refine (resolve_faults _).last fun a => .get_bind fun h _ => ?_
  dsimp only
  split
  · exact (Act.Faults.jot _).last fun _ => (Act.Faults.modify _).last fun _ => .pure _
  · exact (Act.Faults.modify _).last fun _ => .pure _

theorem registerOpen_faults (item : TextItem) (mode : Mode) (predecessor : Option String) :
    Act.Faults P (registerOpen item mode predecessor) (Uri.fault? item.uri) := by
  have henter (mode : Mode) : Act.Faults (fun _ => True) (do
      let language := languageFor (← get).settings mode item.language
      Act.jot (.openDocument item.uri mode predecessor)
      let d ← enterDocument { item with language } mode predecessor
      return Notice.opened d.address d.life item.version item.text mode predecessor)
      (Uri.fault? item.uri) := by
    refine .get_bind fun h _ => (Act.Faults.jot _).past .any fun _ => ?_
    exact (enterDocument_faults (P := fun _ => True) _ _ _).last fun d => .pure _
  unfold registerOpen modeFor
  cases mode with
  | cell => exact (henter .cell).anywhere
  | file =>
    cases hc : Uri.isCell item.uri with
    | ok isCell => exact (henter (if isCell then .cell else .file)).anywhere
    | error e =>
      intro h _
      rw [Uri.fault?_of_error (Uri.key_of_isCell_error hc)]
      rfl

theorem registerChange_faults (change : ContentChange) (mode : Mode) :
    Act.Faults P (registerChange change mode) (Uri.fault? change.uri) := by
  refine Act.Faults.last ((keyOf_faults _).last fun key => .get_bind fun h _ => ?_) fun r => ?_
  · dsimp only
    split
    · exact (Act.Faults.jot _).last fun _ => .pure _
    · exact (Act.Faults.modify _).last fun _ => .pure _
  · rcases r with _ | ⟨d, settled⟩
    · exact .pure _
    · exact (Act.Faults.jot _).last fun _ => .pure _

theorem registerClose_faults (uri : String) :
    Act.Faults P (registerClose uri) (Uri.fault? uri) := by
  refine (Act.Faults.jot _).past (Q := fun _ _ => True) .any fun _ => ?_
  exact (resolve_faults _).last fun a => (Act.Faults.modify _).last fun _ => .pure _

theorem registerOpens_faults (items : List TextItem) (predecessor : TextItem → Option String) :
    Act.Faults P (registerOpens items predecessor)
      ((items.map TextItem.uri).findSome? Uri.fault?) := by
  rw [List.findSome?_map]
  exact (Act.Faults.mapM (fun item => registerOpen_faults item .cell (predecessor item))
    items).anywhere

theorem registerOpensInOrder_faults (previous : Option String) (items : List TextItem) :
    Act.Faults P (registerOpensInOrder previous items)
      ((items.map TextItem.uri).findSome? Uri.fault?) := by
  induction items generalizing previous P with
  | nil => exact .pure _
  | cons item items ih =>
    rw [List.map_cons, findSome?_cons_or]
    exact (registerOpen_faults item .cell previous).seq fun notice => (ih _).last
      fun rest => .pure _

theorem registerCloses_faults (uris : List String) :
    Act.Faults P (registerCloses uris) (uris.findSome? Uri.fault?) :=
  (Act.Faults.mapM registerClose_faults uris).anywhere

theorem registerContent_faults (changes : List ContentChange) :
    Act.Faults P (registerContent changes)
      ((changes.map ContentChange.uri).findSome? Uri.fault?) := by
  rw [List.findSome?_map]
  have hall := Act.Faults.mapM (fun change => registerChange_faults change .cell) changes
  exact (hall.anywhere).last fun _ => .pure _

theorem applyVersion_faults (key : Key) (version : Int) (metadata : Option Json) :
    Act.Faults P (applyVersion key version metadata) (metadata.bind Metadata.fault?) := by
  refine (Act.Faults.modify _).past (Q := fun _ _ => True) .any fun _ => ?_
  cases metadata with
  | none => exact .pure _
  | some v => exact (metadataOf_faults v).last fun _ => .modify _

theorem applyData_faults (key : Key) (updates : List Cell) :
    Act.Faults P (applyData key updates) none := by
  refine .get_bind fun h _ => ?_
  split
  · exact .pure _
  · refine (Act.Faults.modify _).last fun _ => ?_
    split
    · exact .jot _
    · exact .pure _

theorem changeCells_faults (key : Key) (change : NotebookChange) :
    Act.Faults P (changeCells key change)
      (((change.content.getD []).map ContentChange.uri).findSome? Uri.fault?) := by
  unfold changeCells
  split
  · exact registerContent_faults _
  · exact (applyData_faults key _).past (Q := fun _ _ => True) .any fun _ =>
      registerContent_faults _

/-- A notebook is indexed up to its first document without a key. -/
theorem reindex_faults (N : Key) (ds : List String) :
    Act.Faults (fun h => h.cellsAt N = some ds) (reindex N) (ds.findSome? Uri.fault?) := by
  intro h hds
  obtain ⟨n, hn, rfl⟩ := Option.map_eq_some_iff.mp hds
  rw [reindex_on]
  simp only [Store.reindex, hn]
  exact Store.claim_fault N n.documents _

theorem reindex_keyed (N : Key) : Act.Yields (fun _ => True) (reindex N) fun _ => Keyed N := by
  intro h g _ _ hrun
  rw [reindex_on] at hrun
  cases hr : (h.store.reindex N).2 with
  | error e => simp [hr, Except.mapError] at hrun
  | ok _ =>
    rw [hr] at hrun
    cases hrun
    intro n hn
    rw [Store.get?_reindex] at hn
    exact Store.key_of_reindex hn hr

/-- Linking the cells of a notebook that was indexed is always possible. -/
theorem stage_faults {uri : String} {N : Key} (token : Token) (hN : Uri.key uri = .ok N) :
    Act.Faults (Keyed N) (stage uri token) none :=
  .of_ok fun _ hk => stage_ok token hN hk

theorem stageOnOpen_faults {uri : String} {N : Key} (token : Option Token)
    (hN : Uri.key uri = .ok N) :
    Act.Faults (Keyed N) (stageOnOpen uri token) none := by
  unfold stageOnOpen
  cases token with
  | none => exact .pure _
  | some t =>
    refine .get_bind fun h hk => ?_
    split
    · refine Act.Faults.last (fun g hg => ?_) fun _ => .pure _
      rw [hg]
      exact stage_faults t hN h hk
    · exact .pure _

/-- A notebook is put in its place with readable metadata and cells that have keys. -/
theorem putInStore_faults (item : NotebookItem) (N : Key) :
    Act.Faults P (putInStore item N) ((item.metadata.bind Metadata.fault?).or
      ((item.cells.map Cell.document).findSome? Uri.fault?)) := by
  refine Act.Faults.seq ?_ fun metadata => ?_
  · cases item.metadata with
    | none => exact .pure _
    | some v => exact (metadataOf_faults v).map
  · refine (Act.Faults.modify _).past (.modify fun h _ => ?_) fun _ => reindex_faults N _
    simp [cellsAt, Store.get?, Notebook.documents]

theorem openInStore_faults {item : NotebookItem} {N : Key} (hN : Uri.key item.uri = .ok N) :
    Act.Faults P (openInStore item) ((item.metadata.bind Metadata.fault?).or
      ((item.cells.map Cell.document).findSome? Uri.fault?)) := by
  rw [openInStore_eq]
  refine .keyOf_bind hN (.get_bind fun h _ => ?_)
  dsimp only
  split
  · exact (Act.Faults.jot _).past .any fun _ =>
      (Act.Faults.modify _).past .any fun _ => putInStore_faults item N
  · exact putInStore_faults item N

theorem openInStore_keyed {item : NotebookItem} {N : Key} (hN : Uri.key item.uri = .ok N) :
    Act.Yields P (openInStore item) fun _ => Keyed N :=
  openInStore_yields hN (Act.Yields.any.bind fun _ => Act.Yields.any.bind fun _ => reindex_keyed N)

/-- An open notebook takes a structural change if all cells that it then lists have keys, and all
documents that are opened and closed. -/
theorem applyStructure_faults {N : Key} {notebook : Notebook} (s : StructureChange)
    (token : Option Token) (hN : Uri.key notebook.uri = .ok N) :
    Act.Faults (fun h => (h.store.get? N).isSome = true) (applyStructure N notebook s token)
      ((s.respliced notebook.documents ++ s.opened.map TextItem.uri ++ s.closed).findSome?
      Uri.fault?) := by
  have hkeep {α : Type} {a : Act α} (ha : Act.Preserves (Keyed N) a) := Act.Yields.of_preserves ha
  rw [List.append_assoc, List.findSome?_append, List.findSome?_append]
  refine (Act.Faults.modify _).past
    (Q := fun _ h => h.cellsAt N = some (s.respliced notebook.documents))
    (.modify fun h hopen => ?_) fun _ => ?_
  · obtain ⟨n, hn⟩ := Option.isSome_iff_exists.mp hopen
    simp only [cellsAt, Store.get?_modify, hn, if_true, Option.map_some]
    exact congrArg some (documents_splice notebook.cells s)
  refine (reindex_faults N _).bind ((reindex_keyed N).mono fun _ _ => trivial) fun _ => ?_
  refine (Act.Faults.jot _).past (hkeep fun _ hk => hk) fun _ => ?_
  refine (registerOpens_faults _ _).bind
    (hkeep (registerOpens_keeps (fun _ _ hk => hk) (fun _ _ hk => hk) _ _)) fun opened => ?_
  have hcloses := registerCloses_faults (P := Keyed N) s.closed
  rw [← Option.or_none (o := s.closed.findSome? Uri.fault?)]
  refine hcloses.bind (hkeep (registerCloses_keeps (fun _ _ hk => hk) (fun _ _ hk => hk) _))
    fun closed => ?_
  cases token with
  | none => exact .pure _
  | some t => exact (stage_faults t hN).last fun links => .pure _

end Operations

def notebookAt (h : Hub) (uri : String) : Option Notebook :=
  (Uri.key uri).toOption.bind h.store.get?

/-- The documents that it looks up for a notification, in this order. A notebook that is not open is
neither changed nor closed. -/
def reads (h : Hub) : Notification → List String
  | .openNotebook notebook items => notebook.cells.map Cell.document ++ items.map TextItem.uri
  | .changeNotebook uri _ change =>
    match h.notebookAt uri with
    | none => []
    | some notebook =>
      (match change.structural with
        | none => []
        | some s => s.respliced notebook.documents ++ s.opened.map TextItem.uri ++ s.closed) ++
      (change.content.getD []).map ContentChange.uri
  | .closeNotebook uri cells => if (h.notebookAt uri).isSome then cells else []
  | _ => []

def readsMetadata (h : Hub) : Notification → Option Json
  | .openNotebook notebook _ => notebook.metadata
  | .changeNotebook uri _ change => (h.notebookAt uri).bind fun _ => change.metadata
  | _ => none

/-- What goes wrong first with a notification: its own URI, then its metadata, then the documents. A
save is only written down. -/
def fault? (h : Hub) (n : Notification) : Option Fault :=
  match n with
  | .saveNotebook _ => none
  | n => (Uri.fault? n.uri).or
      (((h.readsMetadata n).bind Metadata.fault?).or ((h.reads n).findSome? Uri.fault?))

section Begin

variable {N : Key} {token : Option Token} {h : Hub}

theorem notebookAt_eq {uri : String} (hN : Uri.key uri = .ok N) :
    h.notebookAt uri = h.store.get? N := by
  simp [notebookAt, hN, Except.toOption]

theorem beginOpen_faults {notebook : NotebookItem} (items : List TextItem)
    (hN : Uri.key notebook.uri = .ok N) :
    failure? ((beginOpen notebook items token).on h).2 =
      h.fault? (.openNotebook notebook items) := by
  have hall : Act.Faults (fun _ => True) (beginOpen notebook items token)
      ((notebook.metadata.bind Metadata.fault?).or
        ((notebook.cells.map Cell.document ++ items.map TextItem.uri).findSome? Uri.fault?)) := by
    rw [List.findSome?_append, ← Option.or_assoc]
    refine (Act.Faults.jot _).past .any fun _ => ?_
    refine (openInStore_faults hN).bind (openInStore_keyed hN) fun _ => ?_
    have hitems :=
      registerOpensInOrder_keeps (P := Keyed N) (fun _ _ hk => hk) (fun _ _ hk => hk) none items
    rw [← Option.or_none (o := (items.map TextItem.uri).findSome? Uri.fault?)]
    refine (registerOpensInOrder_faults none items).bind (.of_preserves hitems) fun notices => ?_
    exact (stageOnOpen_faults token hN).last fun pass => .pure _
  rw [hall h trivial]
  simp [fault?, Notification.uri, Uri.fault?_of_key hN, readsMetadata, reads]

theorem beginChange_faults {uri : String} {version : Int} {change : NotebookChange}
    (hf : h.store.Filed) (hN : Uri.key uri = .ok N) :
    failure? ((beginChange uri version change token).on h).2 =
      h.fault? (.changeNotebook uri version change) := by
  have hfault : h.fault? (.changeNotebook uri version change) =
      (((h.store.get? N).bind fun _ => change.metadata).bind Metadata.fault?).or
        ((h.reads (.changeNotebook uri version change)).findSome? Uri.fault?) := by
    simp [fault?, Notification.uri, Uri.fault?_of_key hN, readsMetadata, notebookAt_eq hN]
  have hall : Act.Faults (fun g => g = h) (beginChange uri version change token)
      (h.fault? (.changeNotebook uri version change)) := by
    refine (Act.Faults.jot _).past (Q := fun _ g => g.store = h.store)
      (.modify fun g hg => by rw [hg]; rfl)
      fun _ => .keyOf_bind hN (.get_bind fun g hg => ?_)
    rw [hfault, hg]
    simp only [reads, notebookAt_eq hN]
    cases hn : h.store.get? N with
    | none => exact (Act.Faults.jot _).last fun _ => .pure _
    | some notebook =>
      have hversion := Act.Yields.of_preserves (applyVersion_chains g N version change.metadata)
      rw [List.findSome?_append]
      refine (applyVersion_faults N version change.metadata).bind
        (Q := fun _ g => (g.store.get? N).isSome = true)
        ?_ fun _ => ?_
      · refine (hversion.mono (by rintro _ rfl; exact .refl _)).imp fun _ g' hsame => ?_
        have hlisted : g'.cellsAt N = some notebook.documents := by
          rw [hsame.cells]
          simp [cellsAt, hg, hn]
        simpa [cellsAt] using congrArg Option.isSome hlisted
      · refine Act.Faults.seq ?_ fun errands => (changeCells_faults N change).last
          fun edits => .pure _
        unfold changeStructure
        cases change.structural with
        | none => exact .pure _
        | some s => exact (applyStructure_faults s token (hf N notebook hn)).last fun u => .pure _
  exact hall h rfl

theorem beginClose_faults {uri : String} (cells : List String) (hN : Uri.key uri = .ok N) :
    failure? ((beginClose uri cells).on h).2 = h.fault? (.closeNotebook uri cells) := by
  have hfault : h.fault? (.closeNotebook uri cells) =
      (if (h.store.get? N).isSome then cells else []).findSome? Uri.fault? := by
    simp [fault?, Notification.uri, Uri.fault?_of_key hN, readsMetadata, reads, notebookAt_eq hN]
  have hall :
      Act.Faults (fun g => g = h) (beginClose uri cells) (h.fault? (.closeNotebook uri cells)) := by
    refine .keyOf_bind hN (.get_bind fun g hg => ?_)
    rw [hfault, hg]
    cases h.store.get? N with
    | none => exact (Act.Faults.jot _).last fun _ => .pure _
    | some notebook =>
      refine (Act.Faults.modify _).past .any fun _ => (Act.Faults.jot _).past .any fun _ => ?_
      exact (registerCloses_faults cells).last fun notices => .pure _
  exact hall h rfl

theorem fault?_text {n : Notification} {k : Key} (hn : n.isNotebook = false)
    (hk : Uri.key n.uri = .ok k) :
    h.fault? n = none := by
  cases n with
  | openDocument | changeDocument | closeDocument =>
    simp [fault?, Uri.fault?_of_key hk, readsMetadata, reads]
  | _ => cases hn

/-- Documents go to the registry or to the recorder. -/
theorem routed_faults {a b : Act (List Errand)} (ha : Act.Faults (fun _ => True) a none)
    (hb : Act.Faults (fun _ => True) b none) :
    Act.Faults (fun _ => True) (do
      match (← get).route with
      | .registry => a
      | .recorder => b) none := by
  refine .get_bind fun g _ => ?_
  split
  · exact ha.anywhere
  · exact hb.anywhere

/-- A handler that begins fails with the fault of its notification. -/
theorem begin_faults {n : Notification} {k : Key} (token : Option Token) (hf : h.store.Filed)
    (hk : Uri.key n.uri = .ok k) :
    failure? ((begin n token).on h).2 = h.fault? n := by
  cases n with
  | openNotebook notebook items => exact beginOpen_faults items hk
  | changeNotebook uri version change => exact beginChange_faults hf hk
  | saveNotebook uri => rfl
  | closeNotebook uri cells => exact beginClose_faults cells hk
  | openDocument item =>
    have hopen := registerOpen_faults (P := fun _ => True) item .file none
    rw [Uri.fault?_of_key (show Uri.key item.uri = .ok k from hk)] at hopen
    rw [fault?_text rfl hk]
    exact routed_faults (hopen.last fun _ => .pure _)
      ((Act.Faults.modify _).last fun _ => .pure _) h trivial
  | changeDocument change =>
    have hchange := registerChange_faults (P := fun _ => True) change .file
    rw [Uri.fault?_of_key (show Uri.key change.uri = .ok k from hk)] at hchange
    rw [fault?_text rfl hk]
    exact routed_faults (hchange.last fun _ => .pure _)
      ((Act.Faults.modify _).last fun _ => .pure _) h trivial
  | closeDocument uri =>
    have hclose := registerClose_faults (P := fun _ => True) uri
    rw [Uri.fault?_of_key (show Uri.key uri = .ok k from hk)] at hclose
    rw [fault?_text rfl hk]
    exact routed_faults (hclose.last fun _ => .pure _)
      ((Act.Faults.modify _).last fun _ => .pure _) h trivial

end Begin
end Hub
end NotebookHub
