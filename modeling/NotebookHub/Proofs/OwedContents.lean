import Mathlib.Data.List.ReduceOption
import NotebookHub.Proofs.Actions
import NotebookHub.Proofs.Addresses
import NotebookHub.Proofs.Delivering
import NotebookHub.Proofs.Preservation
import NotebookHub.Proofs.Posts
import NotebookHub.Proofs.Scopes

namespace NotebookHub

def Registry.Sound (r : Registry) : Prop :=
  ∀ k d, r.get? k = some d → d.address.Sound ∧ d.address.key = k

namespace Registry.Sound

variable {r : Registry}

theorem update (hr : r.Sound) (k : Key) (edits : List Edit) (version : Int) :
    (r.update k edits version).1.Sound := by
  intro k' d hd
  rw [get?_update] at hd
  split at hd
  · obtain ⟨d₀, hd₀, rfl⟩ := Option.map_eq_some_iff.mp hd
    exact hr k' d₀ hd₀
  · exact hr k' d hd

theorem link (hr : r.Sound) (k : Key) (predecessor : Option String) :
    (r.link k predecessor).Sound := by
  intro k' d hd
  rw [get?_link] at hd
  split at hd
  · obtain ⟨d₀, hd₀, rfl⟩ := Option.map_eq_some_iff.mp hd
    exact hr k' d₀ hd₀
  · exact hr k' d hd

theorem close (hr : r.Sound) (k : Key) : (r.close k).Sound := by
  intro k' d hd
  rw [get?_close] at hd
  split at hd
  · cases hd
  · exact hr k' d hd

end Registry.Sound

def Registry.content (r : Registry) (k : Key) : Option Content := (r.get? k).map Document.content

/-- What becomes of the content under `k`; a message about another document does nothing to it. -/
def Message.amend (k : Key) (held : Option Content) (m : Message) : Option Content :=
  if m.document.key = k then m.effect held else held

namespace Errand

/-- What the owners will be told for it if the books stay as they are. -/
def messages (h : Hub) : Errand → List Message
  | .notice n => if h.isGood n then [n.message] else []
  | .publish p => if h.passes.isCurrent p.token then p.links.map Link.message else []

def Addressed : Errand → Prop
  | .notice n => n.document.Sound
  | .publish p => ∀ l ∈ p.links, l.cell.Sound

end Errand

theorem Errand.Addressed.of_mem {e : Errand} (he : e.Addressed) {h : Hub} {m : Message}
    (hm : m ∈ e.messages h) : m.document.Sound := by
  cases e with
  | notice n =>
    simp only [messages] at hm
    split at hm
    · obtain rfl := List.mem_singleton.mp hm
      rw [Notice.document_message]
      exact he
    · simp at hm
  | publish p =>
    simp only [messages] at hm
    split at hm
    · obtain ⟨l, hl, rfl⟩ := List.mem_map.mp hm
      exact he l hl
    · simp at hm

namespace Hub

def owed (h : Hub) (es : List Errand) : List Message := es.flatMap (·.messages h)

/-- Owners that held `held` will hold what the registry has, once they are told what is owed. -/
structure Owes (held : Key → Option Content) (h : Hub) (es : List Errand) : Prop where
  sound : h.documents.Sound
  addressed : ∀ e ∈ es, e.Addressed
  content : ∀ k, (h.owed es).foldl (Message.amend k) (held k) = h.documents.content k

theorem owed_append (h : Hub) (es fs : List Errand) :
    h.owed (es ++ fs) = h.owed es ++ h.owed fs := by
  simp [owed]

@[simp] theorem owed_singleton (h : Hub) (e : Errand) : h.owed [e] = e.messages h := by simp [owed]

/-- What is owed about a document depends on that document's life and the current passes. -/
theorem foldl_owed_congr {h g : Hub} {k : Key} (hp : g.passes = h.passes)
    (hl : (g.documents.get? k).map Document.life = (h.documents.get? k).map Document.life)
    (es : List Errand) (c : Option Content) :
    (g.owed es).foldl (Message.amend k) c = (h.owed es).foldl (Message.amend k) c := by
  induction es generalizing c with
  | nil => rfl
  | cons e es ih =>
    have he : (e.messages g).foldl (Message.amend k) c =
        (e.messages h).foldl (Message.amend k) c := by
      cases e with
      | publish p => simp only [Errand.messages, hp]
      | notice n =>
        by_cases hk : n.document.key = k
        · subst hk
          simp only [Errand.messages, isGood_congr hl]
        · have hskip : Message.amend k c n.message = c := by simp [Message.amend, hk]
          simp only [Errand.messages]
          split <;> split <;> simp [hskip]
    simp only [owed, List.flatMap_cons, List.foldl_append] at ih ⊢
    rw [he, ih]

namespace Owes

variable {held : Key → Option Content} {h g : Hub} {es : List Errand} {e : Errand}

theorem start (hs : h.documents.Sound) : Owes h.documents.content h [] where
  sound := hs
  addressed := by simp
  content _ := rfl

/-- The books that count are the registry and the passes. -/
theorem congr (ho : Owes held h es) (hd : g.documents = h.documents) (hp : g.passes = h.passes) :
    Owes held g es where
  sound := hd ▸ ho.sound
  addressed := ho.addressed
  content k := by rw [foldl_owed_congr hp (by rw [hd]), ho.content, hd]

/-- Only what is owed counts, not by which errands. -/
theorem regroup {fs : List Errand} (ho : Owes held h es) (ha : ∀ e ∈ fs, e.Addressed)
    (hm : h.owed fs = h.owed es) : Owes held h fs where
  sound := ho.sound
  addressed := ha
  content k := by rw [hm, ho.content]

theorem addressed_append (ho : Owes held h es) (ha : e.Addressed) :
    ∀ e' ∈ es ++ [e], e'.Addressed := by
  intro e' he'
  rcases List.mem_append.mp he' with he' | he'
  · exact ho.addressed e' he'
  · exact List.mem_singleton.mp he' ▸ ha

/-- The registry changed under one key, and one message was added that says so. -/
theorem append {m : Message} (ho : Owes held h es) (hp : g.passes = h.passes)
    (hs : g.documents.Sound) (ha : e.Addressed) (hm : e.messages g = [m])
    (hother : ∀ k, m.document.key ≠ k → g.documents.get? k = h.documents.get? k)
    (hsame : (∀ c, m.effect c = g.documents.content m.document.key) ∨
      m.effect (h.documents.content m.document.key) = g.documents.content m.document.key ∧
        (g.documents.get? m.document.key).map Document.life =
          (h.documents.get? m.document.key).map Document.life) :
    Owes held g (es ++ [e]) where
  sound := hs
  addressed := ho.addressed_append ha
  content k := by
    rw [owed_append, owed_singleton, hm, List.foldl_append]
    simp only [List.foldl_cons, List.foldl_nil, Message.amend]
    by_cases hk : m.document.key = k
    · subst hk
      rw [if_pos rfl]
      rcases hsame with hall | ⟨heff, hlife⟩
      · exact hall _
      · have hc := ho.content m.document.key
        rw [← foldl_owed_congr hp hlife] at hc
        exact hc ▸ heff
    · rw [if_neg hk]
      have hk' := hother k hk
      have hc := ho.content k
      rw [← foldl_owed_congr hp (by rw [hk'])] at hc
      simp only [Registry.content, hk']
      exact hc

/-- A good notice says what became of its document. -/
theorem append_notice {n : Notice} (ho : Owes held h es) (hp : g.passes = h.passes)
    (hs : g.documents.Sound) (ha : n.document.Sound) (hgood : g.isGood n = true)
    (hother : ∀ k, n.document.key ≠ k → g.documents.get? k = h.documents.get? k)
    (hsame : (∀ c, n.message.effect c = g.documents.content n.document.key) ∨
      n.message.effect (h.documents.content n.document.key) = g.documents.content n.document.key ∧
        (g.documents.get? n.document.key).map Document.life =
          (h.documents.get? n.document.key).map Document.life) :
    Owes held g (es ++ [.notice n]) := by
  refine ho.append (m := n.message) hp hs ha (by simp [Errand.messages, hgood]) ?_ ?_
  · simpa using hother
  · simpa using hsame

end Owes

section Operations

variable {held : Key → Option Content} {es : List Errand}

theorem jot_owes (n : Note) :
    Act.Yields (Owes held · es) (Act.jot n) fun _ g => Owes held g es :=
  .modify fun _ ho => ho.congr rfl rfl

theorem modeFor_owes (uri : String) (mode : Mode) :
    Act.Yields (Owes held · es) (modeFor uri mode) fun _ g => Owes held g es := by
  cases mode with
  | cell => exact .pure fun _ ho => ho
  | file => exact .lift_bind fun _ _ => .pure fun _ ho => ho

/-- What is entered is found under its own key, with its address, and says what it was opened
with. -/
theorem enter_spec {r : Registry} (hr : r.Sound) {o : Registry.Opening} (ho : o.address.Sound) :
    (r.enter o).1.Sound ∧ (r.enter o).2.address.Sound ∧
      (r.enter o).2.address.key = o.address.key ∧
      (r.enter o).2.content = ⟨o.mode, o.predecessor, o.text, o.version⟩ := by
  have haddress : (r.enter o).2.address.Sound ∧ (r.enter o).2.address.key = o.address.key := by
    unfold Registry.enter
    split
    · rename_i d hd
      exact hr _ d hd
    · exact ⟨ho, rfl⟩
  refine ⟨?_, haddress.1, haddress.2, ?_⟩
  · intro k d hd
    rw [Registry.get?_enter] at hd
    split at hd
    · rename_i hk
      obtain rfl := Option.some.inj hd
      exact ⟨haddress.1, haddress.2.trans hk⟩
    · exact hr k d hd
  · unfold Registry.enter
    split <;> rfl

/-- An opened document is in the registry as its notice has it. -/
theorem enterDocument_owes (item : TextItem) (mode : Mode) (predecessor : Option String) :
    Act.Yields (Owes held · es) (enterDocument item mode predecessor) fun d g =>
      Owes held g
        (es ++ [.notice (.opened d.address d.life item.version item.text mode predecessor)]) := by
  intro h g d ho hrun
  cases ha : Address.of item.uri with
  | error e =>
    rw [enterDocument_on_error ha] at hrun
    cases hrun
  | ok a =>
    obtain ⟨js, he⟩ := enterDocument_on ha mode predecessor h
    rw [he] at hrun
    cases hrun
    let o : Registry.Opening := ⟨a, item.language, item.version, item.text, mode, predecessor⟩
    obtain ⟨hs, haddress, hkey, hcontent⟩ := enter_spec (o := o) ho.sound (Address.sound_of ha)
    have hget : (h.documents.enter o).1.get? (h.documents.enter o).2.address.key =
        some (h.documents.enter o).2 := by
      rw [Registry.get?_enter, if_pos hkey.symm]
    refine ho.append_notice rfl hs haddress ?_ (fun k hk => ?_) (.inl fun c => ?_)
    · simp [isGood, Registry.isCurrent, hget, o]
    · have hne : ¬ o.address.key = k := fun he => hk (hkey.trans he)
      rw [Registry.get?_enter, if_neg hne]
    · have hc : (h.documents.enter o).1.content (h.documents.enter o).2.address.key =
          some ⟨mode, predecessor, item.text, item.version⟩ := by
        rw [Registry.content, hget, Option.map_some, hcontent]
      exact hc.symm

/-- An opened document is in the registry as its notice has it. -/
theorem registerOpen_owes (item : TextItem) (mode : Mode) (predecessor : Option String) :
    Act.Yields (Owes held · es) (registerOpen item mode predecessor)
      fun n g => Owes held g (es ++ [.notice n]) := by
  refine (modeFor_owes item.uri mode).bind fun mode => .get_bind fun h => ?_
  refine Act.Yields.mono (P := (Owes held · es)) ?_ fun _ hg => hg.2
  refine (jot_owes _).bind fun _ => ?_
  exact (enterDocument_owes _ mode predecessor).bind fun d => .pure fun _ ho => ho

/-- The edits of a changed document go out as they were settled on its text, where they do the
same. -/
theorem updateDocument_owes (change : ContentChange) :
    Act.Yields (Owes held · es) (updateDocument change) fun r g => Owes held g (es ++
      r.toList.map
        fun (d, settled) => .notice (.changed d.address d.life settled change.version)) := by
  refine .lift_bind fun key hk => .get_bind fun _ => ?_
  rintro h g r ⟨rfl, ho⟩ hrun
  dsimp only at hrun
  have hget := h.documents.get?_update key key change.edits change.version
  rw [if_pos rfl] at hget
  cases hd : h.documents.get? key with
  | none =>
    rw [hd, Option.map_none] at hget
    simp only [hget] at hrun
    cases hrun
    rw [Option.toList_none, List.map_nil, List.append_nil]
    exact ho.congr rfl rfl
  | some d =>
    obtain ⟨hsound, hkey⟩ := ho.sound key d hd
    rw [hd, Option.map_some] at hget
    simp only [hget, Registry.update_settled _ _ hd] at hrun
    cases hrun
    have hs := ho.sound.update key change.edits change.version
    subst hkey
    refine ho.append_notice rfl hs hsound ?_ (fun k hk => ?_) (.inr ⟨?_, ?_⟩)
    · simp [isGood, Registry.isCurrent, hget]
    · exact (Registry.get?_update ..).trans (if_neg hk)
    · simp [Notice.message, Message.effect, Notice.document, Registry.content, hget, hd,
        Document.content, Edit.applyAll_settled]
    · simp [Notice.document, hget, hd]

theorem registerChange_owes (change : ContentChange) (mode : Mode) :
    Act.Yields (Owes held · es) (registerChange change mode)
      fun n g => Owes held g (es ++ n.toList.map .notice) := by
  refine (updateDocument_owes change).bind fun r => ?_
  rcases r with _ | ⟨d, settled⟩
  · exact .pure fun _ ho => ho
  · exact (jot_owes _).bind fun _ => .pure fun _ ho => ho

theorem registerClose_owes (uri : String) :
    Act.Yields (Owes held · es) (registerClose uri) fun n g => Owes held g (es ++ [.notice n]) := by
  refine (jot_owes _).bind fun _ => .lift_bind fun a ha => ?_
  refine Act.Yields.bind (.modify fun h ho => ?_) fun _ => .pure fun _ ho => ho
  have ha := Address.sound_of ha
  have hs := ho.sound.close a.key
  refine ho.append_notice rfl hs ha rfl (fun k hk => ?_) (.inl fun c => ?_)
  · exact (Registry.get?_close ..).trans (if_neg hk)
  · simp [Notice.message, Message.effect, Notice.document, Registry.content, Registry.get?_close]

theorem registerOpens_owes (items : List TextItem) (predecessor : TextItem → Option String) :
    Act.Yields (Owes held · es) (registerOpens items predecessor)
      fun ns g => Owes held g (es ++ ns.map .notice) := by
  have hall := Act.Yields.mapM (l := items) (I := fun ns g => Owes held g (es ++ ns.map .notice))
    (f := fun item => registerOpen item .cell (predecessor item)) (fun item _ ns => ?_) []
  · simpa [registerOpens] using hall
  · exact (registerOpen_owes item .cell (predecessor item)).imp fun _ _ ho => by simpa using ho

theorem registerOpensInOrder_owes (previous : Option String) (items : List TextItem) :
    Act.Yields (Owes held · es) (registerOpensInOrder previous items)
      fun ns g => Owes held g (es ++ ns.map .notice) := by
  induction items generalizing previous es with
  | nil => exact .pure fun _ ho => by simpa using ho
  | cons item items ih =>
    refine (registerOpen_owes item .cell previous).bind fun n => ?_
    refine (ih (some item.uri)).bind fun ns => .pure fun _ ho => ?_
    simpa using ho

theorem registerCloses_owes (uris : List String) :
    Act.Yields (Owes held · es) (registerCloses uris)
      fun ns g => Owes held g (es ++ ns.map .notice) := by
  have hall := Act.Yields.mapM (l := uris) (I := fun ns g => Owes held g (es ++ ns.map .notice))
    (f := registerClose) (fun uri _ ns => ?_) []
  · simpa [registerCloses] using hall
  · exact (registerClose_owes uri).imp fun _ _ ho => by simpa using ho

theorem registerContent_owes (changes : List ContentChange) :
    Act.Yields (Owes held · es) (registerContent changes)
      fun ns g => Owes held g (es ++ ns.map .notice) := by
  have hall := Act.Yields.mapM (l := changes)
    (I := fun ns g => Owes held g (es ++ ns.reduceOption.map .notice))
    (f := (registerChange · .cell)) (fun change _ ns => ?_) []
  · refine Act.Yields.bind (hall.mono fun _ ho => by simpa using ho) fun ns => ?_
    exact .pure fun _ ho => by simpa using ho
  · refine (registerChange_owes change .cell).imp fun n _ ho => ?_
    cases n <;> simpa [List.reduceOption_append] using ho

/-- A document is linked, and the link joins those that a current pass is to publish. -/
theorem Owes.link {h : Hub} {pass : ChainPass} (ho : Owes held h (es ++ [.publish pass]))
    (hc : h.passes.isCurrent pass.token = true) {a : Address} (ha : a.Sound)
    (predecessor : Option String) :
    Owes held { h with documents := h.documents.link a.key predecessor }
      (es ++ [.publish { pass with links := pass.links ++ [⟨a, predecessor⟩] }]) := by
  let one : ChainPass := { pass with links := [⟨a, predecessor⟩] }
  have hs := ho.sound.link a.key predecessor
  have hone := ho.append (g := { h with documents := h.documents.link a.key predecessor })
    (e := .publish one) (m := .linked a predecessor) rfl hs
      (by simpa [one, Errand.Addressed] using ha)
    (by simp [one, Errand.messages, hc, Link.message])
    (fun k hk => (Registry.get?_link ..).trans (if_neg hk))
    (.inr (by
      simp only [Message.document, Message.effect, Registry.content, Registry.get?_link, if_true]
      cases h.documents.get? a.key <;> simp [Document.content]))
  refine hone.regroup (fun e he => ?_) ?_
  · rcases List.mem_append.mp he with he | he
    · exact ho.addressed e (List.mem_append_left _ he)
    · obtain rfl := List.mem_singleton.mp he
      intro l hl
      rcases List.mem_append.mp hl with hl | hl
      · exact ho.addressed (.publish pass) (by simp) l hl
      · obtain rfl := List.mem_singleton.mp hl
        exact ha
  · simp [owed, one, Errand.messages, hc]

/-- Links go out in the order in which they were filed. -/
theorem linkCells_owes (pass : ChainPass) (pairs : List (String × Option String)) :
    Act.Yields (fun h => Owes held h (es ++ [.publish pass]) ∧ h.passes.isCurrent pass.token = true)
      (linkCells pairs)
      fun links g => Owes held g (es ++ [.publish { pass with links := pass.links ++ links }]) := by
  induction pairs generalizing pass with
  | nil => exact .pure fun g hg => by simpa using hg.1
  | cons p pairs ih =>
    refine .lift_bind fun a ha => ?_
    refine Act.Yields.bind (.modify fun h hh => ?_) fun _ =>
      (ih { pass with links := pass.links ++ [⟨a, p.2⟩] }).bind fun links => ?_
    · exact ⟨hh.1.link hh.2 (Address.sound_of ha) p.2, hh.2⟩
    · exact .pure fun g ho => by simpa using ho

theorem stage_owes (uri : String) (token : Token) :
    Act.Yields (Owes held · es) (stage uri token)
      fun links g => Owes held g (es ++ passErrand uri token links) := by
  refine .lift_bind fun key hk => .get_bind fun h => ?_
  have hnone (es : List Errand) : es ++ passErrand uri token none = es := by simp [passErrand]
  split
  · exact .pure fun g ho => by simpa [hnone] using ho.2
  · rename_i notebook hn
    split
    · exact .pure fun g ho => by simpa [hnone] using ho.2
    split
    · refine ((jot_owes (.duplicateCells uri)).mono fun _ ho => ho.2).bind fun _ => ?_
      exact .pure fun g ho => by simpa [hnone] using ho
    · rename_i hc _
      have hc : h.passes.isCurrent token = true := by simpa using hc
      let pass : ChainPass := ⟨uri, token, [], 0⟩
      have hlinks := @linkCells_owes held es pass (chainLinks notebook.documents)
      refine (hlinks.mono ?_).bind fun links => .pure fun g ho => ?_
      · rintro g ⟨rfl, ho⟩
        refine ⟨ho.regroup (ho.addressed_append (by simp [pass, Errand.Addressed])) ?_, hc⟩
        simp [owed, pass, Errand.messages]
      · refine ho.regroup ?_ (by simp [owed, pass, passErrand, Errand.messages])
        intro e he
        rcases List.mem_append.mp he with he | he
        · exact ho.addressed e (List.mem_append_left _ he)
        · obtain rfl := List.mem_singleton.mp he
          exact fun l hl =>
            ho.addressed (.publish { pass with links := pass.links ++ links }) (by simp) l
            (by simpa [pass] using hl)

end Operations

section Begin

variable {held : Key → Option Content} {es : List Errand}

theorem Owes.withStore {h : Hub} (store : Store) (ho : Owes held h es) :
    Owes held { h with store } es :=
  ho.congr rfl rfl

theorem Owes.note {h : Hub} (n : Note) (ho : Owes held h es) : Owes held (h.note n) es :=
  ho.congr rfl rfl

theorem beginOpen_owes (notebook : NotebookItem) (items : List TextItem) (token : Option Token) :
    Act.Yields (Owes held · []) (beginOpen notebook items token) fun es g => Owes held g es := by
  refine (jot_owes _).bind fun _ => ?_
  refine (Act.Yields.of_preserves (openInStore_keeps (fun _ s => Owes.withStore s)
    (fun _ n => Owes.note n) notebook)).bind fun _ => ?_
  refine (registerOpensInOrder_owes none items).bind fun ns => ?_
  refine Act.Yields.bind (Q := fun pass g => Owes held g (ns.map .notice ++ pass)) ?_ fun _ =>
    .pure fun _ ho => ho
  unfold stageOnOpen
  split
  · exact .pure fun _ ho => by simpa using ho
  · refine .get_bind fun h => ?_
    split
    · exact ((stage_owes _ _).mono fun _ ho => ho.2).bind fun _ => .pure fun _ ho =>
        by simpa using ho
    · exact .pure fun _ ho => by simpa using ho.2

theorem applyStructure_owes (key : Key) (notebook : Notebook) (change : StructureChange)
    (token : Option Token) :
    Act.Yields (Owes held · []) (applyStructure key notebook change token)
      fun u g => Owes held g u.errands := by
  unfold applyStructure
  dsimp only
  refine Act.Yields.bind (Q := fun _ => (Owes held · [])) (.modify fun _ => Owes.withStore _)
    fun _ => ?_
  refine (Act.Yields.of_preserves (reindex_keeps (fun _ s => Owes.withStore s) key)).bind fun _ =>
    ?_
  refine (jot_owes _).bind fun _ => (registerOpens_owes change.opened _).bind fun opened => ?_
  refine (registerCloses_owes change.closed).bind fun closed => ?_
  cases token with
  | none => exact .pure fun _ ho => by simpa [StructuralUpdate.errands] using ho
  | some t =>
    refine (stage_owes notebook.uri t).bind fun links => .pure fun _ ho => ?_
    simpa [StructuralUpdate.errands] using ho

theorem changeCells_owes (key : Key) (change : NotebookChange) :
    Act.Yields (Owes held · es) (changeCells key change)
      fun ns g => Owes held g (es ++ ns.map .notice) := by
  unfold changeCells
  split
  · exact registerContent_owes _
  · refine (Act.Yields.of_preserves (applyData_keeps (fun _ s => Owes.withStore s)
      (fun _ n => Owes.note n) key _)).bind fun _ => registerContent_owes _

theorem beginChange_owes (uri : String) (version : Int) (change : NotebookChange)
    (token : Option Token) :
    Act.Yields (Owes held · []) (beginChange uri version change token)
      fun es g => Owes held g es := by
  refine (jot_owes _).bind fun _ => .lift_bind fun key hk => .get_bind fun h => ?_
  refine Act.Yields.mono (P := (Owes held · [])) ?_ fun _ ho => ho.2
  split
  · exact (jot_owes _).bind fun _ => .pure fun _ ho => ho
  · rename_i notebook hn
    refine (Act.Yields.of_preserves
      (applyVersion_keeps (fun _ s => Owes.withStore s) key version _)).bind
      fun _ => ?_
    refine Act.Yields.bind (Q := fun es g => Owes held g es) ?_ fun es =>
      (changeCells_owes key change).bind fun ns => .pure fun _ ho => ho
    unfold changeStructure
    split
    · exact .pure fun _ ho => ho
    · exact (applyStructure_owes key notebook _ token).bind fun u => .pure fun _ ho => ho

theorem beginClose_owes (uri : String) (cells : List String) :
    Act.Yields (Owes held · []) (beginClose uri cells) fun es g => Owes held g es := by
  refine .lift_bind fun key hk => .get_bind fun h => ?_
  refine Act.Yields.mono (P := (Owes held · [])) ?_ fun _ ho => ho.2
  split
  · exact (jot_owes _).bind fun _ => .pure fun _ ho => ho
  · refine Act.Yields.bind (.modify fun _ => Owes.withStore _)
      fun _ => (jot_owes _).bind fun _ => ?_
    exact (registerCloses_owes cells).bind fun ns => .pure fun _ ho => by simpa using ho

theorem begin_yields_owes (n : Notification) (token : Option Token) :
    Act.Yields (Owes held · []) (begin n token) fun es g => Owes held g es := by
  have hcall (c : Call) : Act.Yields (Owes held · []) (do modify (·.call c); return [])
      fun es g => Owes held g es :=
    Act.Yields.bind (Q := fun _ => (Owes held · [])) (.modify fun _ ho => ho.congr rfl rfl) fun _ =>
      .pure fun _ ho => ho
  cases n with
  | openNotebook notebook items => exact beginOpen_owes notebook items token
  | changeNotebook uri version change => exact beginChange_owes uri version change token
  | closeNotebook uri cells => exact beginClose_owes uri cells
  | saveNotebook uri => exact (jot_owes _).bind fun _ => .pure fun _ ho => ho
  | openDocument item =>
    refine .get_bind fun h => Act.Yields.mono (P := (Owes held · [])) ?_ fun _ ho => ho.2
    split
    · exact (registerOpen_owes item .file none).bind fun n => .pure fun _ ho => ho
    · exact hcall _
  | changeDocument change =>
    refine .get_bind fun h => Act.Yields.mono (P := (Owes held · [])) ?_ fun _ ho => ho.2
    split
    · exact (registerChange_owes change .file).bind fun n => .pure fun _ ho => ho
    · exact hcall _
  | closeDocument uri =>
    refine .get_bind fun h => Act.Yields.mono (P := (Owes held · [])) ?_ fun _ ho => ho.2
    split
    · exact (registerClose_owes uri).bind fun n => .pure fun _ ho => ho
    · exact hcall _

/-- What a notification leaves owed makes up for all that it changed in the registry. -/
theorem begin_owes {h g : Hub} {n : Notification} {token : Option Token}
    (hrun : (begin n token).on h = (g, .ok es)) (hs : h.documents.Sound) :
    Owes h.documents.content g es :=
  begin_yields_owes n token h g es (Owes.start hs) hrun

end Begin
end Hub
end NotebookHub
