import Mathlib.Data.List.Forall2
import NotebookHub.Proofs.ClosedNotebooks
import NotebookHub.Proofs.Openings
import NotebookHub.Proofs.Splices
import NotebookHub.Proofs.RunInvariants

namespace NotebookHub

/-- Whoever is on the right is there for somebody on the left. -/
theorem exists_of_forall₂ {α β : Type} {R : α → β → Prop} {xs : List α} {ys : List β}
    (hr : List.Forall₂ R xs ys) :
    ∀ y ∈ ys, ∃ x ∈ xs, R x y := by
  induction hr with
  | nil => simp
  | cons hxy _ ih => simpa using ⟨.inl hxy, fun y hy => .inr (by simpa using ih y hy)⟩

/-- What is read off one list is read off the other when it is the same at each place. -/
theorem filterMap_of_forall₂ {α β γ : Type} {R : α → β → Prop} {p : β → Option γ} {q : α → Option γ}
    (hpq : ∀ x y, R x y → p y = q x) {xs : List α} {ys : List β} (hr : List.Forall₂ R xs ys) :
    ys.filterMap p = xs.filterMap q := by
  induction hr with
  | nil => rfl
  | cons hxy _ ih => rw [List.filterMap_cons, List.filterMap_cons, hpq _ _ hxy, ih]

/-- What is noted under the key of a URI, if it has one. -/
theorem keyed_eq_some {α : Type} {uri : String} {x : α} {p : Key × α} :
    (Uri.key uri).toOption.map (·, x) = some p ↔ Uri.key uri = .ok p.1 ∧ x = p.2 := by
  cases hk : Uri.key uri <;> simp [Except.toOption, Prod.ext_iff]

namespace Act

variable {α β : Type}

/-- On a hub of the kind `P` the result of `a` is of the kind `R`, and the hub stays of its kind. -/
def Gives (P : Hub → Prop) (a : Act α) (R : α → Prop) : Prop := Yields P a fun x g => R x ∧ P g

namespace Gives

variable {P : Hub → Prop} {R : α → Prop} {S : β → Prop} {a : Act α} {f : α → Act β}

theorem pure {x : α} (h : R x) : Gives P (pure x) R := Yields.pure fun _ hp => ⟨h, hp⟩

theorem bind (ha : Gives P a R) (hf : ∀ x, R x → Gives P (f x) S) : Gives P (a >>= f) S := by
  refine Yields.bind ha fun x => ?_
  rintro h g y ⟨hx, hp⟩ hrun
  exact hf x hx h g y hp hrun

/-- The first part gives nothing that matters. -/
theorem past (ha : Preserves P a) (hf : ∀ x, Gives P (f x) S) : Gives P (a >>= f) S :=
  Yields.bind (.of_preserves ha) hf

theorem get_bind {f : Hub → Act β} (hf : ∀ h, P h → Gives P (f h) S) : Gives P (get >>= f) S := by
  refine Yields.get_bind fun h => ?_
  rintro _ g y ⟨rfl, hp⟩ hrun
  exact hf _ hp _ g y hp hrun

/-- Each result is the one of its own place. -/
theorem mapM {l : List β} {f : β → Act α} {R : β → α → Prop} (hf : ∀ x ∈ l, Gives P (f x) (R x)) :
    Gives P (l.mapM f) (List.Forall₂ R l) := by
  induction l with
  | nil => exact pure .nil
  | cons x l ih =>
    rw [List.mapM_cons]
    refine (hf x (by simp)).bind fun y hy => (ih fun z hz => hf z (List.mem_cons_of_mem x hz)).bind
      fun ys hys => ?_
    exact pure (.cons hy hys)

theorem imp {R' : α → Prop} (ha : Gives P a R) (h : ∀ x, R x → R' x) : Gives P a R' :=
  Yields.imp ha fun x _ hx => ⟨h x hx.1, hx.2⟩

end Gives
end Act

namespace Notice

def SaysOpened (p : String × Option String) (n : Notice) : Prop :=
  ∃ a life version text mode, n = .opened a life version text mode p.2 ∧ Uri.key p.1 = .ok a.key

def SaysClosed (uri : String) (n : Notice) : Prop := ∃ a, n = .closed a ∧ Uri.key uri = .ok a.key

def SaysEdited (change : ContentChange) (n : Notice) : Prop :=
  ∃ a life settled, n = .changed a life settled change.version ∧ Uri.key change.uri = .ok a.key

variable {n : Notice}

theorem SaysOpened.key {p : String × Option String} (ho : n.SaysOpened p) :
    Uri.key p.1 = .ok n.document.key := by
  obtain ⟨a, life, version, text, mode, rfl, hk⟩ := ho
  exact hk

theorem SaysClosed.key {uri : String} (hc : n.SaysClosed uri) :
    Uri.key uri = .ok n.document.key := by
  obtain ⟨a, rfl, hk⟩ := hc
  exact hk

theorem SaysEdited.key {change : ContentChange} (he : n.SaysEdited change) :
    Uri.key change.uri = .ok n.document.key := by
  obtain ⟨a, life, settled, rfl, hk⟩ := he
  exact hk

end Notice

namespace Notification

def edits : Notification → List ContentChange
  | .changeNotebook _ _ change => change.content.getD []
  | .changeDocument change => [change]
  | _ => []

theorem mem_touched {n : Notification} {uri : String} :
    uri ∈ n.touched ↔ uri ∈ n.opened ∨ uri ∈ n.closed ∨ uri ∈ n.edits.map ContentChange.uri := by
  cases n with
  | changeNotebook _ _ change =>
    cases hs : change.structural <;> simp [touched, opened, closed, edits, hs]
  | _ => simp [touched, opened, closed, edits]

end Notification

namespace Hub

/-- Whether it takes effect: a notebook that is changed or closed is to be open, and a document by
itself is to be meant for the registry. -/
def heeds (h : Hub) : Notification → Bool
  | .changeNotebook uri .. | .closeNotebook uri _ =>
    (Uri.key uri).toOption.any fun k => (h.store.get? k).isSome
  | .openDocument _ | .changeDocument _ | .closeDocument _ => h.route = .registry
  | .openNotebook .. | .saveNotebook _ => true

def cellsOf (h : Hub) (uri : String) : List String :=
  ((h.notebookAt uri).map Notebook.documents).getD []

theorem cellsOf_eq {h : Hub} {uri : String} {N : Key} (hN : Uri.key uri = .ok N) :
    h.cellsOf uri = (h.cellsAt N).getD [] := by
  rw [cellsOf, notebookAt_eq hN, cellsAt]

/-- What a notification opens, each document with the one that it is to follow: with a notebook the
texts follow each other, and in a change a text follows what the new cell list has before it. -/
def openings (h : Hub) : Notification → List (String × Option String)
  | .openNotebook _ items => chainLinks (items.map TextItem.uri)
  | .changeNotebook uri _ change =>
    match change.structural with
    | some s =>
      s.opened.map fun item => (item.uri, predecessorOf (s.respliced (h.cellsOf uri)) item.uri)
    | none => []
  | .openDocument item => [(item.uri, none)]
  | _ => []

/-- Notices say what a notification opens, then what it closes, and then they are of what it
edits. -/
def Tells (h : Hub) (n : Notification) (ns : List Notice) : Prop :=
  ∃ opened closed edited, ns = opened ++ closed ++ edited ∧
    List.Forall₂ Notice.SaysOpened (h.openings n) opened ∧
    List.Forall₂ Notice.SaysClosed n.closed closed ∧ ∀ x ∈ edited, ∃ c ∈ n.edits, x.SaysEdited c

theorem map_fst_linksAfter (previous : Option String) (ds : List String) :
    (linksAfter previous ds).map Prod.fst = ds := by
  induction ds generalizing previous with
  | nil => rfl
  | cons d ds ih => rw [linksAfter, List.map_cons, ih]

theorem map_fst_openings (h : Hub) (n : Notification) : (h.openings n).map Prod.fst = n.opened := by
  cases n with
  | openNotebook notebook items => exact map_fst_linksAfter none _
  | changeNotebook uri version change =>
    cases hs : change.structural <;> simp [openings, Notification.opened, hs]
  | saveNotebook | closeNotebook | openDocument | changeDocument | closeDocument => rfl

/-- Notices are of documents that the notification names. -/
theorem Tells.touches {h : Hub} {n : Notification} {ns : List Notice} (ht : h.Tells n ns) :
    ∀ x ∈ ns, n.Touches x.document.key := by
  obtain ⟨opened, closed, edited, rfl, ho, hc, he⟩ := ht
  intro x hx
  rw [List.mem_append, List.mem_append] at hx
  rcases hx with (hx | hx) | hx
  · obtain ⟨p, hp, hx⟩ := exists_of_forall₂ ho x hx
    refine ⟨p.1, Notification.mem_touched.mpr (.inl ?_), hx.key⟩
    rw [← map_fst_openings h]
    exact List.mem_map_of_mem hp
  · obtain ⟨uri, hu, hx⟩ := exists_of_forall₂ hc x hx
    exact ⟨uri, Notification.mem_touched.mpr (.inr (.inl hu)), hx.key⟩
  · obtain ⟨c, hc, hx⟩ := he x hx
    exact ⟨c.uri, Notification.mem_touched.mpr (.inr (.inr (List.mem_map_of_mem hc))), hx.key⟩

theorem heeds_of_key {h : Hub} {uri : String} {N : Key} (hk : Uri.key uri = .ok N) :
    (Uri.key uri).toOption.any (fun k => (h.store.get? k).isSome) = (h.store.get? N).isSome := by
  rw [hk]
  rfl

section Operations

theorem enterDocument_names (item : TextItem) (mode : Mode) (predecessor : Option String) :
    Act.Gives Shelved (enterDocument item mode predecessor) fun d => Uri.key item.uri =
      .ok d.address.key := by
  intro h g d hs hrun
  cases ha : Address.of item.uri with
  | error e =>
    rw [enterDocument_on_error ha] at hrun
    cases hrun
  | ok a =>
    obtain ⟨js, he⟩ := enterDocument_on ha mode predecessor h
    rw [he] at hrun
    cases hrun
    obtain ⟨hsound, _, hkey, _⟩ := enter_spec hs
      (o := ⟨a, item.language, item.version, item.text, mode, predecessor⟩) (Address.sound_of ha)
    exact ⟨(Address.of_eq_ok ha).2.1.trans (congrArg _ hkey.symm), hsound⟩

theorem registerOpen_tells (item : TextItem) (mode : Mode) (predecessor : Option String) :
    Act.Gives Shelved (registerOpen item mode predecessor)
      (Notice.SaysOpened (item.uri, predecessor)) := by
  refine .past (modeFor_preserves _ _) fun mode => .get_bind fun h _ => ?_
  dsimp only
  refine .past (.modify fun _ hs => hs)
    fun _ => (enterDocument_names _ mode predecessor).bind fun d hd => ?_
  exact .pure ⟨_, _, _, _, _, rfl, hd⟩

theorem registerChange_tells (change : ContentChange) (mode : Mode) :
    Act.Gives Shelved (registerChange change mode) fun r => ∀ n ∈ r, n.SaysEdited change := by
  have hupdate : Act.Gives Shelved (updateDocument change) fun r =>
      ∀ p ∈ r, Uri.key change.uri = .ok p.1.address.key := by
    refine Act.Yields.lift_bind fun key hk => Act.Gives.get_bind fun h hs => ?_
    have hs' := hs.update key change.edits change.version
    dsimp only
    split
    · exact .past (.modify fun _ hs => hs) fun _ => .pure (by simp)
    · rename_i d hd
      refine .past (.modify fun _ _ => hs') fun _ => .pure ?_
      simpa [(hs' key d hd).2] using hk
  refine hupdate.bind fun r hr => ?_
  rcases r with _ | ⟨d, settled⟩
  · exact .pure (by simp)
  · refine .past (.modify fun _ hs => hs) fun _ => .pure ?_
    rintro _ ⟨⟩
    exact ⟨_, _, _, rfl, hr _ rfl⟩

theorem registerClose_tells (uri : String) :
    Act.Gives Shelved (registerClose uri) (Notice.SaysClosed uri) := by
  refine .past (.modify fun _ hs => hs) fun _ => Act.Yields.lift_bind fun a ha => ?_
  exact Act.Gives.past (.modify fun _ hs => hs.close a.key)
    fun _ => .pure ⟨a, rfl, (Address.of_eq_ok ha).2.1⟩

theorem registerOpensInOrder_tells (previous : Option String) (items : List TextItem) :
    Act.Gives Shelved (registerOpensInOrder previous items)
      (List.Forall₂ Notice.SaysOpened (linksAfter previous (items.map TextItem.uri))) := by
  induction items generalizing previous with
  | nil => exact .pure .nil
  | cons item items ih =>
    refine (registerOpen_tells item .cell previous).bind fun n hn => (ih _).bind fun ns hns => ?_
    exact .pure (.cons hn hns)

theorem registerOpens_tells (items : List TextItem) (predecessor : TextItem → Option String) :
    Act.Gives Shelved (registerOpens items predecessor)
      (List.Forall₂ Notice.SaysOpened (items.map fun item => (item.uri, predecessor item))) :=
  (Act.Gives.mapM fun item _ => registerOpen_tells item .cell (predecessor item)).imp fun _ hns =>
    List.forall₂_map_left_iff.mpr hns

theorem registerCloses_tells (uris : List String) :
    Act.Gives Shelved (registerCloses uris) (List.Forall₂ Notice.SaysClosed uris) :=
  .mapM fun uri _ => registerClose_tells uri

theorem registerContent_tells (changes : List ContentChange) :
    Act.Gives Shelved (registerContent changes) fun ns => ∀ n ∈ ns, ∃ c ∈ changes,
      n.SaysEdited c := by
  refine Act.Gives.bind (.mapM fun c _ => registerChange_tells c .cell)
    fun rs hrs => .pure fun n hn => ?_
  rw [List.reduceOption_mem_iff] at hn
  obtain ⟨c, hc, hr⟩ := exists_of_forall₂ hrs _ hn
  exact ⟨c, hc, hr n rfl⟩

theorem stageOnOpen_tells (uri : String) (token : Option Token) :
    Act.Gives Shelved (stageOnOpen uri token) fun es => noticesOf es = [] := by
  unfold stageOnOpen
  split
  · exact .pure rfl
  · refine .get_bind fun h _ => ?_
    split
    · exact .past (stage_shelved _ _) fun links => .pure (noticesOf_passErrand ..)
    · exact .pure rfl

theorem beginOpen_tells (notebook : NotebookItem) (items : List TextItem) (token : Option Token) :
    Act.Gives Shelved (beginOpen notebook items token)
      fun es => List.Forall₂ Notice.SaysOpened (chainLinks (items.map TextItem.uri))
        (noticesOf es) := by
  refine .past (.modify fun _ hs => hs) fun _ => .past (openInStore_keeps (fun _ _ hs => hs)
    (fun _ _ hs => hs) notebook) fun _ => ?_
  refine (registerOpensInOrder_tells none items).bind fun ns hns =>
    (stageOnOpen_tells notebook.uri token).bind fun pass hpass => .pure ?_
  rwa [noticesOf_append, noticesOf_notices, hpass, List.append_nil]

theorem applyStructure_tells (key : Key) (notebook : Notebook) (change : StructureChange)
    (token : Option Token) :
    Act.Gives Shelved (applyStructure key notebook change token) fun u => ∃ opened closed,
      noticesOf u.errands = opened ++ closed ∧
      List.Forall₂ Notice.SaysOpened (change.opened.map fun item =>
        (item.uri, predecessorOf (change.respliced notebook.documents) item.uri)) opened ∧
      List.Forall₂ Notice.SaysClosed change.closed closed := by
  refine .past (.modify fun _ hs => hs)
    fun _ => .past (reindex_keeps (fun _ _ hs => hs) key) fun _ =>
    .past (.modify fun _ hs => hs) fun _ => ?_
  refine (registerOpens_tells change.opened fun item => predecessorOf
    ((splice notebook.cells change.start change.deleteCount change.inserted).1.map Cell.document)
      item.uri).bind
    fun opened ho => ?_
  refine (registerCloses_tells change.closed).bind fun closed hc => ?_
  rw [documents_splice] at ho
  cases token with
  | none => exact .pure ⟨opened, closed, noticesOf_errands _, ho, hc⟩
  | some t =>
    exact .past (stage_shelved _ t) fun links => .pure ⟨opened, closed, noticesOf_errands _, ho, hc⟩

theorem changeCells_tells (key : Key) (change : NotebookChange) :
    Act.Gives Shelved (changeCells key change) fun ns => ∀ n ∈ ns, ∃ c ∈ change.content.getD [],
      n.SaysEdited c := by
  unfold changeCells
  split
  · exact registerContent_tells _
  · exact .past (applyData_keeps (fun _ _ hs => hs) (fun _ _ hs => hs) key _)
      fun _ => registerContent_tells _

variable {h : Hub} {uri : String} {key : Key}

theorem changeStructure_tells {notebook : Notebook} (hcells : h.cellsOf uri = notebook.documents)
    (version : Int) (change : NotebookChange) (token : Option Token) :
    Act.Gives Shelved (changeStructure key notebook change.structural token)
      fun es => ∃ opened closed,
      noticesOf es = opened ++ closed ∧
      List.Forall₂ Notice.SaysOpened (h.openings (.changeNotebook uri version change)) opened ∧
      List.Forall₂ Notice.SaysClosed
        (Notification.changeNotebook uri version change).closed closed := by
  unfold changeStructure
  cases hs : change.structural with
  | none => exact .pure ⟨[], [], rfl, by simp [openings, hs], by simp [Notification.closed, hs]⟩
  | some s =>
    refine (applyStructure_tells key notebook s token).bind fun u hu => .pure ?_
    simpa only [openings, Notification.closed, hs, hcells] using hu

/-- The structure of a change opens and closes documents, and its other parts only edit them. -/
theorem beginChange_tells (hk : Uri.key uri = .ok key) (hopen : (h.store.get? key).isSome)
    (version : Int) (change : NotebookChange) (token : Option Token) :
    Act.Yields (fun g => g.store = h.store ∧ g.Shelved) (beginChange uri version change token)
      fun es _ => h.Tells (.changeNotebook uri version change) (noticesOf es) := by
  refine Act.Yields.bind (.of_preserves (.modify fun _ hp => hp)) fun _ => .lift_bind
    fun key' hk' =>
    .get_bind fun h' => ?_
  obtain rfl : key = key' := Except.ok.inj (hk.symm.trans hk')
  split
  · rename_i hnone
    rintro _ g es ⟨rfl, hstore, _⟩ _
    rw [← hstore, hnone] at hopen
    cases hopen
  · rename_i notebook hnotebook
    rintro h₁ g es ⟨rfl, hstore, hs⟩ hrun
    -- the store is still the one in which the cells were looked up
    have hcells : h.cellsOf uri = notebook.documents := by
      simp [cellsOf_eq hk, cellsAt, ← hstore, hnotebook]
    have hall : Act.Gives Shelved (do
        applyVersion key version change.metadata
        let errands ← changeStructure key notebook change.structural token
        let edits ← changeCells key change
        return errands ++ edits.map .notice)
        fun es => h.Tells (.changeNotebook uri version change) (noticesOf es) := by
      refine .past (applyVersion_keeps (fun _ _ hs => hs) key version change.metadata) fun _ =>
        (changeStructure_tells hcells version change token).bind fun es hes =>
        (changeCells_tells key change).bind fun edited hedited => .pure ?_
      obtain ⟨opened, closed, hnotices, ho, hc⟩ := hes
      refine ⟨opened, closed, edited, ?_, ho, hc, hedited⟩
      rw [noticesOf_append, noticesOf_notices, hnotices]
    exact (hall h₁ g es hs hrun).1

theorem beginClose_tells (hk : Uri.key uri = .ok key) (cells : List String) :
    Act.Yields (fun h => (h.store.get? key).isSome ∧ h.Shelved) (beginClose uri cells)
      fun es _ => List.Forall₂ Notice.SaysClosed cells (noticesOf es) := by
  refine .lift_bind fun key' hk' => .get_bind fun h => ?_
  obtain rfl : key = key' := Except.ok.inj (hk.symm.trans hk')
  split
  · rename_i hnone
    rintro _ g es ⟨rfl, hopen, _⟩ _
    simp [hnone] at hopen
  · refine Act.Yields.mono (P := Shelved) ?_ (by intro _ hp; exact hp.2.2)
    refine Act.Yields.bind (.of_preserves (.modify fun _ hs => hs)) fun _ =>
      .bind (.of_preserves (.modify fun _ hs => hs)) fun _ => ?_
    refine Act.Yields.bind (registerCloses_tells cells) fun ns => .pure ?_
    rintro g ⟨hns, _⟩
    rwa [noticesOf_notices]

/-- A document by itself is registered, or else it is only recorded. -/
theorem routed_gives {a : Act (List Errand)} {R : List Errand → Prop} {record : Hub → Hub}
    (ha : Act.Gives Shelved a R) {g : Hub} {es : List Errand} (hs : h.Shelved)
    (hrun : Act.on (do
      match (← get).route with
      | .registry => a
      | .recorder =>
        modify record
        return []) h = (g, .ok es)) :
    (h.route = .registry → R es) ∧ (h.route ≠ .registry → es = []) := by
  obtain ⟨_, _, hget, hrun₁⟩ := Act.bind_eq_ok.mp hrun
  cases hget
  cases hroute : h.route with
  | registry =>
    rw [hroute] at hrun₁
    exact ⟨fun _ => (ha h g es hs hrun₁).1, fun hno => absurd rfl hno⟩
  | recorder =>
    rw [hroute] at hrun₁
    cases hrun₁
    exact ⟨(nomatch ·), fun _ => rfl⟩

end Operations

variable {h g : Hub} {n : Notification} {token : Option Token} {es : List Errand}

theorem errands_of_closed {N : Key} (hn : n.isChange = true ∨ n.isClose = true)
    (hk : Uri.key n.uri = .ok N)
    (hclosed : h.store.get? N = none) (hrun : (begin n token).on h = (g, .ok es)) : es = [] := by
  obtain ⟨notes, hnone⟩ := begin_of_closed hn hk hclosed token
  rw [hrun] at hnone
  cases hnone
  rfl

/-- The notices of a notification that takes effect say what it does, and there are none of any
other. -/
theorem begin_tells (hs : h.Shelved) (hrun : (begin n token).on h = (g, .ok es)) :
    (h.heeds n = true → h.Tells n (noticesOf es)) ∧ (h.heeds n = false → noticesOf es = []) := by
  have hsingle {a : Act (List Errand)} {record : Hub → Hub}
    (hheeds : h.heeds n = decide (h.route = .registry))
      (ha : Act.Gives Shelved a fun es => h.Tells n (noticesOf es))
      (hrun : Act.on (do
        match (← get).route with
        | .registry => a
        | .recorder =>
          modify record
          return []) h = (g, .ok es)) :
      (h.heeds n = true → h.Tells n (noticesOf es)) ∧ (h.heeds n = false → noticesOf es = []) := by
    obtain ⟨htells, hnone⟩ := routed_gives ha hs hrun
    rw [hheeds]
    exact ⟨fun hr => htells (of_decide_eq_true hr),
      fun hr => by rw [hnone (of_decide_eq_false hr)]; rfl⟩
  cases n with
  | openNotebook notebook items =>
    have ho := (beginOpen_tells notebook items token h g es hs hrun).1
    exact ⟨fun _ => ⟨_, [], [], by simp, ho, .nil, by simp⟩, (nomatch ·)⟩
  | changeNotebook uri version change =>
    obtain ⟨key, habout⟩ := about_of_begin rfl (by simp) hrun
    have hk : Uri.key uri = .ok key := habout.2
    rw [heeds, heeds_of_key hk]
    cases hopen : h.store.get? key with
    | none =>
      obtain rfl :=
        errands_of_closed (n := .changeNotebook uri version change) (.inl rfl) hk hopen hrun
      exact ⟨(nomatch ·), fun _ => rfl⟩
    | some notebook =>
      exact ⟨fun _ =>
        beginChange_tells hk (by simp [hopen]) version change token h g es ⟨rfl, hs⟩ hrun,
        (nomatch ·)⟩
  | saveNotebook uri =>
    cases hrun
    exact ⟨fun _ => ⟨[], [], [], rfl, .nil, .nil, by simp⟩, (nomatch ·)⟩
  | closeNotebook uri cells =>
    obtain ⟨key, habout⟩ := about_of_begin rfl (by simp) hrun
    have hk : Uri.key uri = .ok key := habout.2
    rw [heeds, heeds_of_key hk]
    cases hopen : h.store.get? key with
    | none =>
      obtain rfl := errands_of_closed (n := .closeNotebook uri cells) (.inr rfl) hk hopen hrun
      exact ⟨(nomatch ·), fun _ => rfl⟩
    | some notebook =>
      have hc := beginClose_tells hk cells h g es ⟨by simp [hopen], hs⟩ hrun
      exact ⟨fun _ => ⟨[], _, [], by simp, .nil, hc, by simp⟩, (nomatch ·)⟩
  | openDocument item =>
    refine hsingle rfl ((registerOpen_tells item .file none).bind fun x hx => .pure ?_) hrun
    exact ⟨[x], [], [], rfl, .cons hx .nil, .nil, by simp⟩
  | changeDocument change =>
    refine hsingle rfl ((registerChange_tells change .file).bind fun x hx => .pure ?_) hrun
    cases x with
    | none => exact ⟨[], [], [], rfl, .nil, .nil, by simp⟩
    | some x => exact ⟨[], [], [x], rfl, .nil, .nil, by simpa [Notification.edits] using hx⟩
  | closeDocument uri =>
    refine hsingle rfl ((registerClose_tells uri).bind fun x hx => .pure ?_) hrun
    exact ⟨[], [x], [], rfl, .nil, .cons hx .nil, by simp⟩

theorem begin_names (hs : h.Shelved) (hrun : (begin n token).on h = (g, .ok es)) :
    ∀ x ∈ noticesOf es, n.Touches x.document.key := by
  obtain ⟨htells, hnone⟩ := begin_tells hs hrun
  cases hheeds : h.heeds n with
  | true => exact (htells hheeds).touches
  | false => simp [hnone hheeds]

end Hub
end NotebookHub
