import NotebookHub.Proofs.Agreement
import NotebookHub.Proofs.OwedContents

namespace NotebookHub

namespace Notice

def Announces (k : Key) (life : Nat) : Notice → Prop
  | .opened a l .. => a.key = k ∧ l = life
  | _ => False

def Closes (k : Key) : Notice → Prop
  | .closed a => a.key = k
  | _ => False

end Notice

namespace Registry

/-- The steps from one registry to another, with the notices that they leave. -/
inductive Alters (r : Registry) : Registry → List Notice → Prop
  | refl : Alters r r []
  | enter {r' : Registry} {ns : List Notice} (steps : Alters r r' ns) {o : Opening}
    (ho : o.address.Sound) :
    Alters r (r'.enter o).1
      (ns ++ [.opened (r'.enter o).2.address (r'.enter o).2.life o.version o.text
      o.mode o.predecessor])
  | update {r' : Registry} {ns : List Notice} (steps : Alters r r' ns) {k : Key} {edits : List Edit}
    {version : Int} {d : Document} (hd : (r'.update k edits version).1.get? k = some d) :
    Alters r (r'.update k edits version).1
      (ns ++ [.changed d.address d.life (r'.update k edits version).2 version])
  | link {r' : Registry} {ns : List Notice} (steps : Alters r r' ns) (k : Key)
    (predecessor : Option String) :
    Alters r (r'.link k predecessor) ns
  | close {r' : Registry} {ns : List Notice} (steps : Alters r r' ns) (a : Address) :
    Alters r (r'.close a.key) (ns ++ [.closed a])

def lifeAt (r : Registry) (k : Key) : Option Nat := (r.get? k).map Document.life

theorem lifeAt_update (r : Registry) (k k' : Key) (edits : List Edit) (version : Int) :
    (r.update k edits version).1.lifeAt k' = r.lifeAt k' := by
  rw [lifeAt, get?_update]
  split
  · cases h : r.get? k' <;> simp [lifeAt, h]
  · rfl

theorem lifeAt_link (r : Registry) (k k' : Key) (predecessor : Option String) :
    (r.link k predecessor).lifeAt k' = r.lifeAt k' := by
  rw [lifeAt, get?_link]
  split
  · cases h : r.get? k' <;> simp [lifeAt, h]
  · rfl

namespace Alters

variable {r r' : Registry} {ns : List Notice}

theorem sound (ha : Alters r r' ns) (hr : r.Sound) : r'.Sound := by
  induction ha with
  | refl => exact hr
  | enter _ ho ih => exact (Hub.enter_spec ih ho).1
  | update _ _ ih => exact ih.update _ _ _
  | link _ k predecessor ih => exact ih.link k predecessor
  | close _ a ih => exact ih.close a.key

/-- The life that a document is in afterwards was announced, if the document was not in it
before. -/
theorem announced (ha : Alters r r' ns) (hr : r.Sound) {k : Key} {life : Nat}
    (hlife : r'.lifeAt k = some life) : r.lifeAt k = some life ∨ ∃ n ∈ ns, n.Announces k life := by
  induction ha with
  | refl => exact .inl hlife
  | @enter r' ns steps o ho ih =>
    rw [lifeAt, get?_enter] at hlife
    split at hlife
    · rename_i hk
      have hkey := (Hub.enter_spec (steps.sound hr) ho).2.2.1
      refine .inr ⟨_, List.mem_append_right _ (List.mem_singleton.mpr rfl), ?_⟩
      exact ⟨hkey.trans hk, Option.some.inj hlife⟩
    · exact (ih hlife).imp id fun ⟨n, hn, h⟩ => ⟨n, List.mem_append_left _ hn, h⟩
  | update steps hd ih =>
    rw [lifeAt_update] at hlife
    exact (ih hlife).imp id fun ⟨n, hn, h⟩ => ⟨n, List.mem_append_left _ hn, h⟩
  | link steps k' predecessor ih =>
    rw [lifeAt_link] at hlife
    exact ih hlife
  | close steps a ih =>
    rw [lifeAt, get?_close] at hlife
    split at hlife
    · cases hlife
    · exact (ih hlife).imp id fun ⟨n, hn, h⟩ => ⟨n, List.mem_append_left _ hn, h⟩

/-- A document that is not open afterwards was closed, if it was open before. -/
theorem closed (ha : Alters r r' ns) {k : Key} (hlife : r'.lifeAt k = none) :
    r.lifeAt k = none ∨ ∃ n ∈ ns, n.Closes k := by
  induction ha with
  | refl => exact .inl hlife
  | enter steps ho ih =>
    rw [lifeAt, get?_enter] at hlife
    split at hlife
    · cases hlife
    · exact (ih hlife).imp id fun ⟨n, hn, h⟩ => ⟨n, List.mem_append_left _ hn, h⟩
  | update steps hd ih =>
    rw [lifeAt_update] at hlife
    exact (ih hlife).imp id fun ⟨n, hn, h⟩ => ⟨n, List.mem_append_left _ hn, h⟩
  | link steps k' predecessor ih =>
    rw [lifeAt_link] at hlife
    exact ih hlife
  | close steps a ih =>
    rw [lifeAt, get?_close] at hlife
    split at hlife
    · rename_i hk
      exact .inr ⟨.closed a, by simp, hk⟩
    · exact (ih hlife).imp id fun ⟨n, hn, h⟩ => ⟨n, List.mem_append_left _ hn, h⟩

end Alters
end Registry

namespace Hub

def Altered (r : Registry) (ns : List Notice) (h : Hub) : Prop := r.Alters h.documents ns

section Operations

variable {r : Registry} {ns : List Notice}

theorem jot_altered (n : Note) : Act.Yields (Altered r ns) (Act.jot n) fun _ => Altered r ns :=
  .modify fun _ ha => ha

theorem registerOpen_altered (item : TextItem) (mode : Mode) (predecessor : Option String) :
    Act.Yields (Altered r ns) (registerOpen item mode predecessor)
      fun n => Altered r (ns ++ [n]) := by
  refine Act.Yields.bind (.of_preserves (modeFor_preserves _ _)) fun mode => .get_bind fun h => ?_
  refine Act.Yields.mono (P := Altered r ns) ?_ fun _ ha => ha.2
  refine (jot_altered _).bind fun _ => ?_
  intro g g' n ha hrun
  obtain ⟨g₁, d, henter, hdone⟩ := Act.bind_eq_ok.mp hrun
  cases hdone
  obtain ⟨_, a, hresolve, _⟩ := Act.bind_eq_ok.mp henter
  have haddress := (Act.resolve_eq_ok.mp hresolve).2
  obtain ⟨js, hon⟩ := enterDocument_on haddress mode predecessor g
  rw [henter] at hon
  cases hon
  exact Registry.Alters.enter ha (Address.sound_of haddress)

theorem registerChange_altered (change : ContentChange) (mode : Mode) :
    Act.Yields (Altered r ns) (registerChange change mode) fun n => Altered r (ns ++ n.toList) := by
  refine Act.Yields.bind (Q := fun u => Altered r (ns ++ u.toList.map fun c =>
    .changed c.1.address c.1.life c.2 change.version)) ?_ fun u => ?_
  · refine .lift_bind fun key _ => .get_bind fun h => ?_
    rintro g g' u ⟨rfl, ha⟩ hrun
    dsimp only at hrun
    split at hrun
    · cases hrun
      rw [Option.toList_none, List.map_nil, List.append_nil]
      exact ha
    · rename_i d hd
      cases hrun
      exact Registry.Alters.update ha hd
  · rcases u with _ | ⟨d, settled⟩
    · exact .pure fun _ ha => ha
    · exact (jot_altered _).bind fun _ => .pure fun _ ha => ha

theorem registerClose_altered (uri : String) :
    Act.Yields (Altered r ns) (registerClose uri) fun n => Altered r (ns ++ [n]) := by
  refine (jot_altered _).bind fun _ => .lift_bind fun a _ => ?_
  refine Act.Yields.bind (Q := fun _ => Altered r (ns ++ [.closed a])) (.modify fun _ ha => ?_)
    fun _ => ?_
  · exact Registry.Alters.close ha a
  · exact .pure fun _ ha => ha

theorem registerOpens_altered (items : List TextItem) (predecessor : TextItem → Option String) :
    Act.Yields (Altered r ns) (registerOpens items predecessor) fun ms => Altered r (ns ++ ms) := by
  have hall := Act.Yields.mapM (l := items) (I := fun ms => Altered r (ns ++ ms))
    (f := fun item => registerOpen item .cell (predecessor item)) (fun item _ ms => ?_) []
  · simpa [registerOpens] using hall
  · exact (registerOpen_altered item .cell (predecessor item)).imp fun _ _ ha => by simpa using ha

theorem registerOpensInOrder_altered (previous : Option String) (items : List TextItem) :
    Act.Yields (Altered r ns) (registerOpensInOrder previous items)
      fun ms => Altered r (ns ++ ms) := by
  induction items generalizing previous ns with
  | nil => exact .pure fun _ ha => by simpa using ha
  | cons item items ih =>
    refine (registerOpen_altered item .cell previous).bind fun n => ?_
    exact (ih (some item.uri)).bind fun ms => .pure fun _ ha => by simpa using ha

theorem registerCloses_altered (uris : List String) :
    Act.Yields (Altered r ns) (registerCloses uris) fun ms => Altered r (ns ++ ms) := by
  have hall := Act.Yields.mapM (l := uris) (I := fun ms => Altered r (ns ++ ms))
    (f := registerClose)
    (fun uri _ ms => ?_) []
  · simpa [registerCloses] using hall
  · exact (registerClose_altered uri).imp fun _ _ ha => by simpa using ha

theorem registerContent_altered (changes : List ContentChange) :
    Act.Yields (Altered r ns) (registerContent changes) fun ms => Altered r (ns ++ ms) := by
  have hall := Act.Yields.mapM (l := changes) (I := fun ms => Altered r (ns ++ ms.reduceOption))
    (f := (registerChange · .cell)) (fun change _ ms => ?_) []
  · refine Act.Yields.bind (hall.mono fun _ ha => by simpa using ha) fun ms => ?_
    exact .pure fun _ ha => by simpa using ha
  · refine (registerChange_altered change .cell).imp fun n _ ha => ?_
    cases n <;> simpa [List.reduceOption_append] using ha

theorem linkCells_altered (pairs : List (String × Option String)) :
    Act.Yields (Altered r ns) (linkCells pairs) fun _ => Altered r ns := by
  induction pairs with
  | nil => exact .pure fun _ ha => ha
  | cons p pairs ih =>
    refine .lift_bind fun a _ => ?_
    refine Act.Yields.bind (Q := fun _ => Altered r ns) (.modify fun _ ha => ?_) fun _ => ?_
    · exact Registry.Alters.link ha a.key p.2
    · exact ih.bind fun _ => .pure fun _ ha => ha

theorem stage_altered (uri : String) (token : Token) :
    Act.Yields (Altered r ns) (stage uri token) fun _ => Altered r ns := by
  refine .lift_bind fun key _ => .get_bind fun h => ?_
  refine Act.Yields.mono (P := Altered r ns) ?_ fun _ ha => ha.2
  split
  · exact .pure fun _ ha => ha
  · split
    · exact .pure fun _ ha => ha
    split
    · exact (jot_altered _).bind fun _ => .pure fun _ ha => ha
    · exact (linkCells_altered _).bind fun _ => .pure fun _ ha => ha

end Operations

section Begin

variable {r : Registry} {ns : List Notice}

theorem beginOpen_altered (notebook : NotebookItem) (items : List TextItem) (token : Option Token) :
    Act.Yields (Altered r []) (beginOpen notebook items token)
      fun es => Altered r (noticesOf es) := by
  refine (jot_altered _).bind fun _ => ?_
  refine Act.Yields.bind
    (.of_preserves (openInStore_keeps (fun _ _ ha => ha) (fun _ _ ha => ha) notebook))
    fun _ => ?_
  refine (registerOpensInOrder_altered none items).bind fun ms => ?_
  refine Act.Yields.bind (Q := fun pass => Altered r (ms ++ noticesOf pass)) ?_ fun pass =>
    .pure fun _ ha => by simpa [noticesOf_append] using ha
  unfold stageOnOpen
  split
  · exact .pure fun _ ha => by simpa [noticesOf] using ha
  · refine .get_bind fun h => Act.Yields.mono (P := Altered r ms) ?_ fun _ ha => by simpa using ha.2
    split
    · exact (stage_altered _ _).bind fun _ => .pure fun _ ha => by simpa using ha
    · exact .pure fun _ ha => by simpa [noticesOf] using ha

theorem applyStructure_altered (key : Key) (notebook : Notebook) (change : StructureChange)
    (token : Option Token) :
    Act.Yields (Altered r []) (applyStructure key notebook change token)
      fun u => Altered r (noticesOf u.errands) := by
  unfold applyStructure
  dsimp only
  refine Act.Yields.bind (Q := fun _ => Altered r []) (.modify fun _ ha => ha) fun _ => ?_
  refine Act.Yields.bind (.of_preserves (reindex_keeps (fun _ _ ha => ha) key)) fun _ => ?_
  refine (jot_altered _).bind fun _ => (registerOpens_altered change.opened _).bind fun opened => ?_
  refine (registerCloses_altered change.closed).bind fun closed => ?_
  cases token with
  | none => exact .pure fun _ ha => by simpa only [noticesOf_errands, List.nil_append] using ha
  | some t =>
    refine (stage_altered notebook.uri t).bind fun links => .pure fun _ ha => ?_
    simpa only [noticesOf_errands, List.nil_append] using ha

theorem beginChange_altered (uri : String) (version : Int) (change : NotebookChange)
    (token : Option Token) :
    Act.Yields (Altered r []) (beginChange uri version change token)
      fun es => Altered r (noticesOf es) := by
  refine (jot_altered _).bind fun _ => .lift_bind fun key _ => .get_bind fun h => ?_
  refine Act.Yields.mono (P := Altered r []) ?_ fun _ ha => ha.2
  split
  · exact (jot_altered _).bind fun _ => .pure fun _ ha => ha
  · refine Act.Yields.bind (.of_preserves (applyVersion_keeps (fun _ _ ha => ha) key version _))
      fun _ => ?_
    refine Act.Yields.bind (Q := fun es => Altered r (noticesOf es)) ?_ fun es => ?_
    · unfold changeStructure
      split
      · exact .pure fun _ ha => ha
      · exact (applyStructure_altered key _ _ token).bind fun u => .pure fun _ ha => ha
    · refine Act.Yields.bind (Q := fun ms => Altered r (noticesOf es ++ ms)) ?_ fun ms =>
        .pure fun _ ha => by simpa [noticesOf_append] using ha
      unfold changeCells
      split
      · exact registerContent_altered _
      · refine Act.Yields.bind
          (.of_preserves (applyData_keeps (fun _ _ ha => ha) (fun _ _ ha => ha) key _))
          fun _ => registerContent_altered _

theorem beginClose_altered (uri : String) (cells : List String) :
    Act.Yields (Altered r []) (beginClose uri cells) fun es => Altered r (noticesOf es) := by
  refine .lift_bind fun key _ => .get_bind fun h => ?_
  refine Act.Yields.mono (P := Altered r []) ?_ fun _ ha => ha.2
  split
  · exact (jot_altered _).bind fun _ => .pure fun _ ha => ha
  · refine Act.Yields.bind (Q := fun _ => Altered r []) (.modify fun _ ha => ha) fun _ => ?_
    refine (jot_altered _).bind fun _ => (registerCloses_altered cells).bind fun ms => ?_
    exact .pure fun _ ha => by simpa using ha

/-- What a notification does to the registry comes to steps whose notices it leaves. -/
theorem begin_altered (n : Notification) (token : Option Token) :
    Act.Yields (Altered r []) (begin n token) fun es => Altered r (noticesOf es) := by
  have hcall (c : Call) : Act.Yields (Altered r []) (do modify (·.call c); return [])
      fun es => Altered r (noticesOf es) :=
    Act.Yields.bind (Q := fun _ => Altered r []) (.modify fun _ ha => ha)
      fun _ => .pure fun _ ha => ha
  cases n with
  | openNotebook notebook items => exact beginOpen_altered notebook items token
  | changeNotebook uri version change => exact beginChange_altered uri version change token
  | closeNotebook uri cells => exact beginClose_altered uri cells
  | saveNotebook uri => exact (jot_altered _).bind fun _ => .pure fun _ ha => ha
  | openDocument item =>
    refine .get_bind fun h => Act.Yields.mono (P := Altered r []) ?_ fun _ ha => ha.2
    split
    · exact (registerOpen_altered item .file none).bind fun n => .pure fun _ ha => ha
    · exact hcall _
  | changeDocument change =>
    refine .get_bind fun h => Act.Yields.mono (P := Altered r []) ?_ fun _ ha => ha.2
    split
    · exact (registerChange_altered change .file).bind fun n => .pure fun _ ha => by simpa using ha
    · exact hcall _
  | closeDocument uri =>
    refine .get_bind fun h => Act.Yields.mono (P := Altered r []) ?_ fun _ ha => ha.2
    split
    · exact (registerClose_altered uri).bind fun n => .pure fun _ ha => ha
    · exact hcall _

theorem altered_of_begin {h g : Hub} {n : Notification} {token : Option Token} {es : List Errand}
    (hrun : (begin n token).on h = (g, .ok es)) : h.documents.Alters g.documents (noticesOf es) :=
  begin_altered n token h g es .refl hrun

end Begin
end Hub
end NotebookHub
