import NotebookHub.Proofs.Aloofness
import NotebookHub.Proofs.Preservation

namespace NotebookHub

def NotebookChange.parts (c : NotebookChange) : List NotebookChange :=
  [⟨c.metadata, none, none, none⟩, ⟨none, c.structural, none, none⟩, ⟨none, none, c.data, none⟩,
    ⟨none, none, none, c.content⟩]

namespace Act

/-- Registers one thing after another and leaves the errands of both for later. -/
def before (a b : Act (List Errand)) : Act (List Errand) := do
  let es ← a
  let fs ← b
  return es ++ fs

/-- Where the first part leaves nothing to be carried out, the rest goes on from it. -/
theorem before_of_silent {a b : Act (List Errand)} {h g : Hub} (ha : a.on h = (g, .ok [])) :
    (a.before b).on h = b.on g := by
  simp only [before, on_bind, ha, List.nil_append]
  rcases b.on g with ⟨g', e | fs⟩ <;> rfl

theorem before_of_error {a b : Act (List Errand)} {h g : Hub} {e : Fault}
    (ha : a.on h = (g, .error e)) :
    (a.before b).on h = (g, .error e) := by
  simp only [before, on_bind, ha]

theorem before_idle {a b : Act (List Errand)} (hb : ∀ g, b.on g = (g, .ok [])) (h : Hub) :
    (a.before b).on h = a.on h := by
  simp only [before, on_bind]
  rcases a.on h with ⟨g, e | es⟩
  · rfl
  · simp [hb]

theorem before_yields {P Q : Hub → Prop} {a b : Act (List Errand)} (ha : Yields P a fun _ => Q)
    (hb : Preserves Q b) : Yields P (a.before b) fun _ => Q :=
  ha.bind fun _ => (Yields.of_preserves hb).bind fun _ => .pure fun _ hq => hq

end Act

namespace Hub

open Act

def conduct (h : Hub) (a : Act (List Errand)) : Except Fault Hub :=
  match a.on h with
  | (_, .error e) => .error e
  | (g, .ok es) => .ok (es.foldl carryOut g)

theorem conduct_congr {a b : Act (List Errand)} {h g : Hub} (hab : a.on h = b.on g) :
    h.conduct a = g.conduct b := by
  rw [conduct, conduct, hab]

theorem conduct_eq_ok {a : Act (List Errand)} {h g : Hub} (hg : h.conduct a = .ok g) :
    ∃ h₁ es, a.on h = (h₁, .ok es) ∧ g = es.foldl carryOut h₁ := by
  unfold conduct at hg
  split at hg
  · cases hg
  · rename_i h₁ es ha
    cases hg
    exact ⟨h₁, es, ha, rfl⟩

theorem conduct_unnoted {a : Act (List Errand)} (ha : a.Aloof) {h g : Hub}
    (hs : h.unnoted = g.unnoted) :
    (h.conduct a).map unnoted = (g.conduct a).map unnoted := by
  obtain ⟨journal, rfl⟩ := unnoted_eq_iff.mp hs
  obtain ⟨j, hj⟩ := ha h (h.roster, h.calls) journal
  obtain ⟨hroster, hcalls⟩ := ha.hush h
  change a.on { h with journal } = _ at hj
  simp only [conduct, hj]
  rcases hrun : a.on h with ⟨h₁, e | es⟩
  · rfl
  · rw [hrun] at hroster hcalls
    have hsame : h₁.unnoted = (h₁.among (h.roster, h.calls) j).unnoted := by
      rw [← hroster, ← hcalls]
      rfl
    exact congrArg Except.ok (foldl_carryOut_unnoted hsame es)

/-- It makes no difference whether the errands of the first part are carried out before the second
part is registered or after, as long as the second part leaves alone what they depend on. -/
theorem conduct_before {a b : Act (List Errand)} {h : Hub} (hb : b.Aloof)
    (howed : ∀ h₁ es, a.on h = (h₁, .ok es) → (b.on h₁).1.owed es = h₁.owed es) :
    (h.conduct (a.before b)).map unnoted = ((h.conduct a).bind (·.conduct b)).map unnoted := by
  simp only [conduct, before, on_bind]
  rcases ha : a.on h with ⟨h₁, e | es⟩
  · rfl
  simp only [Except.bind]
  obtain ⟨j, hj⟩ := h₁.foldl_carryOut_among es
  obtain ⟨j', hj'⟩ := hb h₁ ((h₁.owed es).foldl Roster.speak (h₁.roster, h₁.calls)) j
  obtain ⟨hroster, hcalls⟩ := hb.hush h₁
  have hsame := howed h₁ es ha
  rw [hj, hj']
  rcases hrun : b.on h₁ with ⟨h₂, e | fs⟩
  · rfl
  -- both ways the workspaces were told of the first part when the errands of the second are carried
  -- out
  obtain ⟨j₂, hj₂⟩ := h₂.foldl_carryOut_among es
  rw [hrun] at hroster hcalls hsame
  rw [hsame, hroster, hcalls] at hj₂
  refine congrArg Except.ok ?_
  have hheard (heard : Roster × List Call) : (h₂.among heard j₂).unnoted =
      (h₂.among heard j').unnoted := rfl
  rw [List.foldl_append, hj₂]
  exact foldl_carryOut_unnoted (hheard _) fs

theorem bind_unnoted {x y : Except Fault Hub} {f f' : Hub → Except Fault Hub}
    (hxy : x.map unnoted = y.map unnoted)
    (hf : ∀ g g', x = .ok g → g.unnoted = g'.unnoted → (f g).map unnoted = (f' g').map unnoted) :
    (x.bind f).map unnoted = (y.bind f').map unnoted := by
  cases x with
  | error e =>
    cases y with
    | error e' => exact hxy
    | ok g' => cases hxy
  | ok g =>
    cases y with
    | error e' => cases hxy
    | ok g' => exact hf g g' rfl (Except.ok.inj hxy)

def stampPart (key : Key) (version : Int) (metadata : Option Json) : Act (List Errand) := do
  applyVersion key version metadata
  return []

def dataPart (key : Key) (data : Option (List Cell)) : Act (List Errand) := do
  match data with
  | none => pure ()
  | some updates => applyData key updates
  return []

def textPart (content : Option (List ContentChange)) : Act (List Errand) := do
  return (← registerContent (content.getD [])).map .notice

def allParts (key : Key) (notebook : Notebook) (version : Int) (change : NotebookChange)
    (token : Option Token) :
    Act (List Errand) :=
  (((stampPart key version change.metadata).before
    (changeStructure key notebook change.structural token)).before
    (dataPart key change.data)).before (textPart change.content)

theorem changeStructure_aloof (key : Key) (notebook : Notebook)
    (structural : Option StructureChange)
    (token : Option Token) : Aloof (changeStructure key notebook structural token) := by
  cases structural with
  | none => exact .pure _
  | some s => exact (applyStructure_aloof key notebook s token).bind fun _ => .pure _

theorem dataPart_aloof (key : Key) (data : Option (List Cell)) : Aloof (dataPart key data) := by
  cases data with
  | none => exact .pure _
  | some updates => exact (applyData_aloof key updates).bind fun _ => .pure _

theorem textPart_aloof (content : Option (List ContentChange)) : Aloof (textPart content) :=
  (registerContent_aloof _).bind fun _ => .pure _

/-- Data has no part in what is owed. -/
theorem dataPart_owed (key : Key) (data : Option (List Cell)) (h : Hub) (es : List Errand) :
    ((dataPart key data).on h).1.owed es = h.owed es := by
  have hkeep : Act.Preserves (fun g : Hub => g.passes = h.passes ∧ g.documents = h.documents)
      (dataPart key data) := by
    cases data with
    | none => exact .pure _
    | some updates =>
      exact (applyData_keeps (fun _ _ hp => hp) (fun _ _ hp => hp) key updates).bind
        fun _ => .pure _
  obtain ⟨hp, hd⟩ := hkeep h ⟨rfl, rfl⟩
  exact owed_congr hp (fun k => by rw [hd]) es

/-- Edits leave documents in the lives they are in. -/
theorem textPart_owed (content : Option (List ContentChange)) (h : Hub) (es : List Errand) :
    ((textPart content).on h).1.owed es = h.owed es := by
  have hchange (c : ContentChange) : Act.Preserves (fun g : Hub => g.passes = h.passes ∧
      ∀ k, (g.documents.get? k).map Document.life = (h.documents.get? k).map Document.life)
      (registerChange c .cell) := by
    refine registerChange_preserves (fun _ _ hp => hp) .cell
      (.keyOf_bind fun key _ => .get_bind fun g hp => ?_)
    dsimp only
    split
    · exact hp
    · refine ⟨hp.1, fun k => ?_⟩
      rw [← hp.2 k]
      simp only [Act.on_bind, Act.on_modify, Act.on_pure, Registry.get?_update]
      split
      · cases g.documents.get? k <;> rfl
      · rfl
  have hkeep := Act.Preserves.bind
    (Act.Preserves.bind (.mapM fun c (_ : c ∈ content.getD []) => hchange c)
    fun notices => .pure notices.reduceOption) fun notices => .pure (notices.map Errand.notice)
  obtain ⟨hp, hl⟩ := hkeep h ⟨rfl, fun _ => rfl⟩
  exact owed_congr hp hl es

def Stamped (k : Key) (version : Int) (h : Hub) : Prop :=
  (h.store.get? k).map Notebook.version = some version

theorem Stamped.speaks {k : Key} {version : Int} (h g : Hub) (hg : Speaks h g)
    (hs : Stamped k version h) :
    Stamped k version g := by
  rw [Stamped, hg.store]
  exact hs

section Stamping

variable {k : Key} {version : Int}

theorem Stamped.modify {h : Hub} (hs : Stamped k version h) {f : Notebook → Notebook}
    (hf : ∀ n, (f n).version = n.version) :
    Stamped k version { h with store := h.store.modify k f } := by
  simp only [Stamped, Store.get?_modify, if_true, Option.map_map] at hs ⊢
  rw [← hs]
  exact congrArg (Option.map · _) (funext hf)

theorem changeStructure_stamped (notebook : Notebook) (structural : Option StructureChange)
    (token : Option Token) :
    Act.Preserves (Stamped k version) (changeStructure k notebook structural token) := by
  cases structural with
  | none => exact .pure _
  | some s =>
    refine Act.Preserves.bind
      (applyStructure_preserves (fun _ _ hs => hs) (fun h hs => hs.modify fun _ => rfl)
      (fun h hs => ?_) (fun item _ previous => ?_) (fun uri _ => ?_) fun t _ => ?_) fun _ => .pure _
    · rw [reindex_on]
      simpa only [Stamped, Store.get?_reindex] using hs
    · exact registerOpen_keeps (fun _ _ hs => hs) (fun _ _ hs => hs) item .cell previous
    · exact registerClose_keeps (fun _ _ hs => hs) (fun _ _ hs => hs) uri
    · exact stage_keeps (fun _ _ hs => hs) (fun _ _ hs => hs) notebook.uri t

theorem dataPart_stamped (data : Option (List Cell)) :
    Act.Preserves (Stamped k version) (dataPart k data) := by
  cases data with
  | none => exact .pure _
  | some updates =>
    exact (applyData_preserves (fun _ _ hs => hs) fun _ h _ hs => hs.modify fun _ => rfl).bind
      fun _ => .pure _

theorem textPart_stamped (content : Option (List ContentChange)) :
    Act.Preserves (Stamped k version) (textPart content) :=
  ((Act.Preserves.mapM
    fun c _ => registerChange_keeps (fun _ _ hs => hs) (fun _ _ hs => hs) c .cell).bind
    fun _ => .pure _).bind fun _ => .pure _

/-- To give a notebook the version that it has changes nothing. -/
theorem Stamped.again {h : Hub} (hs : Stamped k version h) :
    (stampPart k version none).on h = (h, .ok []) := by
  have hsame : h.store.modify k ({ · with version }) = h.store := by
    refine congrArg (fun notebooks => { h.store with notebooks }) (Table.modify_self fun n hn => ?_)
    rw [Stamped, Store.get?, hn] at hs
    cases Option.some.inj hs
    rfl
  simp [stampPart, applyVersion, hsame, Except.map]

/-- A change of one part registers that part only. -/
theorem allParts_stamp (notebook : Notebook) (metadata : Option Json)
    (token : Option Token) (h : Hub) :
    (allParts k notebook version ⟨metadata, none, none, none⟩ token).on h =
      (stampPart k version metadata).on h := by
  simp only [allParts]
  rw [before_idle fun _ => rfl, before_idle fun _ => rfl, before_idle fun _ => rfl]

theorem allParts_structure {h : Hub} (hs : Stamped k version h) (notebook : Notebook)
    (structural : Option StructureChange) (token : Option Token) :
    (allParts k notebook version ⟨none, structural, none, none⟩ token).on h =
      (changeStructure k notebook structural token).on h := by
  simp only [allParts]
  rw [before_idle fun _ => rfl, before_idle fun _ => rfl]
  exact before_of_silent hs.again

theorem allParts_data {h : Hub} (hs : Stamped k version h) (notebook : Notebook)
    (data : Option (List Cell)) (token : Option Token) :
    (allParts k notebook version ⟨none, none, data, none⟩ token).on h = (dataPart k data).on h := by
  simp only [allParts]
  rw [before_idle fun _ => rfl]
  apply before_of_silent
  rw [before_idle fun _ => rfl]
  exact hs.again

theorem allParts_text {h : Hub} (hs : Stamped k version h) (notebook : Notebook)
    (content : Option (List ContentChange)) (token : Option Token) :
    (allParts k notebook version ⟨none, none, none, content⟩ token).on h =
    (textPart content).on h := by
  simp only [allParts]
  apply before_of_silent
  rw [before_idle fun _ => rfl, before_idle fun _ => rfl]
  exact hs.again

end Stamping

section Handling

variable {h : Hub} {uri : String} {k : Key} {notebook : Notebook}

/-- A notebook is given a version and metadata, whichever passes there are; or the metadata cannot
be read. -/
theorem stampPart_on (version : Int) (metadata : Option Json)
    (hn : h.store.get? k = some notebook) :
    (∃ e, ∀ passes journal, ∃ g, (stampPart k version metadata).on { h with passes, journal } =
    (g, .error e)) ∨
      ∃ (store : Store) (stamped : Notebook), store.get? k = some stamped ∧
        stamped.version = version ∧
        stamped.uri = notebook.uri ∧ stamped.cells = notebook.cells ∧
        ∀ passes journal, (stampPart k version metadata).on { h with passes, journal } =
          ({ h with store, passes, journal }, .ok []) := by
  cases metadata with
  | none =>
    refine .inr
      ⟨h.store.modify k ({ · with version }), { notebook with version }, ?_, rfl, rfl, rfl,
      fun _ _ => rfl⟩
    simp [Store.get?_modify, hn]
  | some v =>
    cases hv : Metadata.ofJson v with
    | error e =>
      refine .inl ⟨.metadata e, fun passes journal => ?_⟩
      simp only [stampPart, applyVersion, Act.on_bind, Act.on_modify, metadataOf, hv]
      exact ⟨_, rfl⟩
    | ok m =>
      refine .inr ⟨(h.store.modify k ({ · with version })).modify k ({ · with metadata := some m }),
        { notebook with version, metadata := some m }, ?_, rfl, rfl, rfl, fun _ _ => ?_⟩
      · simp [Store.get?_modify, hn]
      · simp [stampPart, applyVersion, metadataOf, hv, Except.map]

theorem stampPart_stamped (version : Int) (metadata : Option Json)
    (hn : h.store.get? k = some notebook)
    {g : Hub} {es : List Errand} (hrun : (stampPart k version metadata).on h = (g, .ok es)) :
    Stamped k version g := by
  rcases stampPart_on version metadata hn with ⟨e, he⟩ | ⟨store, stamped, hs, hv, _, _, hok⟩
  · obtain ⟨g', he⟩ := he h.passes h.journal
    cases he.symm.trans hrun
  · cases (hok h.passes h.journal).symm.trans hrun
    simp [Stamped, hs, hv]

/-- The change of an open notebook is its parts, registered one after the other. -/
theorem beginChange_on (hk : Uri.key uri = .ok k) (hn : h.store.get? k = some notebook)
    (version : Int) (change : NotebookChange) (token : Option Token) :
    (beginChange uri version change token).on h =
      (allParts k notebook version change token).on (h.note (.changeNotebook uri version)) := by
  have hn' : (h.note (.changeNotebook uri version)).store.get? k = some notebook := hn
  have hparts : (allParts k notebook version change token) = (do
      applyVersion k version change.metadata
      let errands ← changeStructure k notebook change.structural token
      let edits ← changeCells k change
      return errands ++ edits.map .notice) := by
    cases hd : change.data <;>
      simp [allParts, before, stampPart, dataPart, textPart, changeCells, hd]
  rw [hparts]
  simp only [beginChange, Act.on_bind, jot, Act.on_modify, keyOf, hk, Act.on_lift_ok,
    Act.on_get, hn']

theorem allParts_stamped (version : Int) (change : NotebookChange) (token : Option Token)
    (hn : h.store.get? k = some notebook) {g : Hub} {es : List Errand}
    (hrun : (allParts k notebook version change token).on h = (g, .ok es)) :
    Stamped k version g := by
  have hstamp : Act.Yields (fun h => h.store.get? k = some notebook)
    (stampPart k version change.metadata)
      fun _ => Stamped k version :=
        fun h g es hn hrun => stampPart_stamped version change.metadata hn hrun
  have hall := before_yields (before_yields (before_yields hstamp
    (changeStructure_stamped notebook change.structural token)) (dataPart_stamped change.data))
    (textPart_stamped change.content)
  exact hall h g es hn hrun

/-- A change of an open notebook is conducted after it has taken its token; the notebook stays open,
so that the token is kept. -/
theorem handleAll_change (hk : Uri.key uri = .ok k) (hn : h.store.get? k = some notebook)
    (version : Int) (change : NotebookChange) :
    h.handleAll [.changeNotebook uri version change] =
      ({ h with passes := h.passesAt (.changeNotebook uri version change) k }.note
        (.changeNotebook uri version)).conduct
          (allParts k notebook version change
          (h.ticket (.changeNotebook uri version change) k).token) := by
  generalize hnotified : Notification.changeNotebook uri version change = n
  have hkey : Uri.key n.uri = .ok k := by
    rw [← hnotified]
    exact hk
  let g : Hub := { h with passes := h.passesAt n k }
  have hn : g.store.get? k = some notebook := hn
  have hbegin : (begin n (h.ticket n k).token).on g =
    (allParts k notebook version change (h.ticket n k).token).on
      (g.note (.changeNotebook uri version)) := by
    rw [← hnotified]
    exact beginChange_on hk hn version change _
  have hsave : ∀ uri, n ≠ .saveNotebook uri := by
    rintro _ rfl
    cases hnotified
  rw [conduct]
  rcases hrun : (allParts k notebook version change (h.ticket n k).token).on
    (g.note (.changeNotebook uri version)) with ⟨g', e | es⟩
  · rw [handleAll, handle_of_error hsave hkey (hbegin.trans hrun)]
  · have hopen : ((es.foldl carryOut g').store.get? k).isSome = true := by
      have hnoted : (g.note (.changeNotebook uri version)).store.get? k = some notebook := hn
      have hversion := congrArg Option.isSome (allParts_stamped version change _ hnoted hrun)
      rw [(foldl_carryOut_speaks g' es).store]
      simpa using hversion
    have hconclude : (es.foldl carryOut g').conclude n (h.ticket n k).lock =
        es.foldl carryOut g' := by
      subst hnotified
      simp [conclude, ticket, Notification.isNotebook, hopen]
    rw [handleAll, handle_of_ok hsave hkey (hbegin.trans hrun), hconclude]
    rfl

theorem handleAll_append (h : Hub) (ns ms : List Notification) :
    h.handleAll (ns ++ ms) = (h.handleAll ns).bind (·.handleAll ms) := by
  induction ns generalizing h with
  | nil => rfl
  | cons n ns ih =>
    rw [List.cons_append, handleAll, handleAll]
    split
    · exact ih _
    · rfl

/-- Splicing looks at the URI and the cells of a notebook only. -/
theorem changeStructure_congr {n m : Notebook} (huri : n.uri = m.uri) (hcells : n.cells = m.cells)
    (structural : Option StructureChange) (token : Option Token) :
    changeStructure k n structural token = changeStructure k m structural token := by
  cases structural with
  | none => rfl
  | some s => simp only [changeStructure, applyStructure, huri, hcells]

theorem handleAll_stamp (hk : Uri.key uri = .ok k) (hn : h.store.get? k = some notebook)
    (version : Int) (metadata : Option Json) :
    h.handleAll [.changeNotebook uri version ⟨metadata, none, none, none⟩] =
      (h.note (.changeNotebook uri version)).conduct (stampPart k version metadata) := by
  rw [handleAll_change hk hn]
  exact conduct_congr (allParts_stamp notebook metadata _ _)

section Again

variable {version : Int} (hk : Uri.key uri = .ok k) (hs : Stamped k version h)

include hk hs

/-- A change that registers one part only, of a notebook that has its version, comes to that
part. -/
theorem handleAll_part (hn : h.store.get? k = some notebook) (change : NotebookChange)
    {a : Act (List Errand)} (ha : a.Aloof) :
    let n := Notification.changeNotebook uri version change
    (∀ g, Stamped k version g →
      (allParts k notebook version change (h.ticket n k).token).on g = a.on g) →
      (h.handleAll [n]).map unnoted =
        (({ h with passes := h.passesAt n k } : Hub).conduct a).map unnoted := by
  intro n hpart
  let g : Hub := { h with passes := h.passesAt n k }
  have hs : Stamped k version (g.note (.changeNotebook uri version)) := hs
  rw [handleAll_change hk hn, conduct_congr (hpart _ hs)]
  exact conduct_unnoted ha rfl

theorem handleAll_structure (hn : h.store.get? k = some notebook)
    (structural : Option StructureChange) :
    let n := Notification.changeNotebook uri version ⟨none, structural, none, none⟩
    (h.handleAll [n]).map unnoted =
      (({ h with passes := h.passesAt n k } : Hub).conduct
        (changeStructure k notebook structural (h.ticket n k).token)).map unnoted := by
  apply handleAll_part hk hs hn _ (changeStructure_aloof _ _ _ _)
  intro g hg
  exact allParts_structure hg notebook structural _

theorem handleAll_data (data : Option (List Cell)) :
    (h.handleAll [.changeNotebook uri version ⟨none, none, data, none⟩]).map unnoted =
      (h.conduct (dataPart k data)).map unnoted := by
  obtain ⟨notebook, hn, _⟩ := Option.map_eq_some_iff.mp hs
  apply handleAll_part hk hs hn _ (dataPart_aloof k data)
  intro g hg
  exact allParts_data hg notebook data _

theorem handleAll_text (content : Option (List ContentChange)) :
    (h.handleAll [.changeNotebook uri version ⟨none, none, none, content⟩]).map unnoted =
      (h.conduct (textPart content)).map unnoted := by
  obtain ⟨notebook, hn, _⟩ := Option.map_eq_some_iff.mp hs
  apply handleAll_part hk hs hn _ (textPart_aloof content)
  intro g hg
  exact allParts_text hg notebook content _

end Again

/-- The token that the structure takes on arrival may as well be taken before the metadata is put in
place. -/
theorem stamp_then_structure (hk : Uri.key uri = .ok k) (hn : h.store.get? k = some notebook)
    (version : Int) (change : NotebookChange) :
    let n := Notification.changeNotebook uri version change
    (({ h with passes := h.passesAt n k }.note (.changeNotebook uri version)).conduct
        ((stampPart k version change.metadata).before
          (changeStructure k notebook change.structural (h.ticket n k).token))).map unnoted =
      (h.handleAll [.changeNotebook uri version ⟨change.metadata, none, none, none⟩,
        .changeNotebook uri version ⟨none, change.structural, none, none⟩]).map unnoted := by
  intro n
  let h₀ : Hub := { h with passes := h.passesAt n k }.note (.changeNotebook uri version)
  let h₁ : Hub := h.note (.changeNotebook uri version)
  have hn₁ : h₁.store.get? k = some notebook := hn
  have hparts (ns : List Notification) :
      h.handleAll (.changeNotebook uri version ⟨change.metadata, none, none, none⟩ :: ns) =
        (h₁.conduct (stampPart k version change.metadata)).bind (·.handleAll ns) := by
    rw [← handleAll_stamp hk hn]
    exact handleAll_append h [_] ns
  rw [hparts]
  change (h₀.conduct _).map unnoted = _
  rcases stampPart_on version change.metadata hn₁ with ⟨e, he⟩ |
    ⟨store, stamped, hs, hv, huri, hcells, hok⟩
  · have hg (h' : Hub) (hh : ∃ passes journal, h' = { h₁ with passes, journal }) :
        ∃ g, (stampPart k version change.metadata).on h' = (g, .error e) := by
      obtain ⟨passes, journal, rfl⟩ := hh
      exact he passes journal
    obtain ⟨g, hg₀⟩ := hg h₀ ⟨_, _, rfl⟩
    obtain ⟨g₁, hg₁⟩ := hg h₁ ⟨_, _, rfl⟩
    simp only [conduct, before_of_error hg₀, hg₁]
    rfl
  · have hg (h' : Hub) (hh : ∃ passes journal, h' = { h₁ with passes, journal }) :
        (stampPart k version change.metadata).on h' = ({ h' with store }, .ok []) := by
      obtain ⟨passes, journal, rfl⟩ := hh
      exact hok passes journal
    have hfirst : h₁.conduct (stampPart k version change.metadata) = .ok { h₁ with store } := by
      simp only [conduct, hg h₁ ⟨_, _, rfl⟩, List.foldl_nil]
    have hstamped : Stamped k version { h₁ with store } := by simp [Stamped, hs, hv]
    have hsame := changeStructure_congr (k := k) huri hcells change.structural (h.ticket n k).token
    rw [hfirst]
    refine Eq.trans ?_ (handleAll_structure hk hstamped hs change.structural).symm
    rw [conduct_congr (before_of_silent (hg h₀ ⟨_, _, rfl⟩)), ← hsame]
    exact conduct_unnoted (changeStructure_aloof _ _ _ _) rfl

/-- Handling the change of an open notebook comes to the same as handling its parts one after the
other: either both fail in the same way, or they leave the same hub, the journal apart. -/
theorem change_is_its_parts (hk : Uri.key uri = .ok k) (hopen : (h.store.get? k).isSome)
    (version : Int) (change : NotebookChange) :
    (h.handleAll [.changeNotebook uri version change]).map unnoted =
      (h.handleAll (change.parts.map (.changeNotebook uri version))).map unnoted := by
  obtain ⟨notebook, hn⟩ := Option.isSome_iff_exists.mp hopen
  let part (c : NotebookChange) := Notification.changeNotebook uri version c
  let h₀ : Hub := { h with passes := h.passesAt (part change) k }.note (.changeNotebook uri version)
  let token := (h.ticket (part change) k).token
  let stamp := stampPart k version change.metadata
  let splice := changeStructure k notebook change.structural token
  have hstamp : Act.Yields (fun h => h.store.get? k = some notebook) stamp
      fun _ => Stamped k version :=
    fun h g es hn hrun => stampPart_stamped version change.metadata hn hrun
  have hsplice := before_yields hstamp (changeStructure_stamped notebook change.structural token)
  have hdata := before_yields hsplice (dataPart_stamped change.data)
  have hstamped {a : Act (List Errand)} (ha : Act.Yields (fun h => h.store.get? k = some notebook) a
      fun _ => Stamped k version) {g g' : Hub} (hg : h₀.conduct a = .ok g)
        (hs : g.unnoted = g'.unnoted) :
      Stamped k version g' := by
    obtain ⟨h₁, es, hrun, rfl⟩ := conduct_eq_ok hg
    obtain ⟨journal, rfl⟩ := unnoted_eq_iff.mp hs
    have hspoken : Stamped k version (es.foldl carryOut h₁) :=
      Stamped.speaks h₁ _ (foldl_carryOut_speaks h₁ es) (ha h₀ h₁ es hn hrun)
    exact hspoken
  have htwo := stamp_then_structure hk hn version change
  have hthree : (h₀.conduct ((stamp.before splice).before (dataPart k change.data))).map unnoted =
      (h.handleAll
        [part ⟨change.metadata, none, none, none⟩, part ⟨none, change.structural, none, none⟩,
        part ⟨none, none, change.data, none⟩]).map unnoted := by
    rw [conduct_before (dataPart_aloof k change.data)
      fun g es _ => dataPart_owed k change.data g es]
    refine Eq.trans (bind_unnoted htwo fun g g' hg hs => ?_)
      (congrArg _ (handleAll_append h [_, _] [_]).symm)
    rw [handleAll_data hk (hstamped hsplice hg hs)]
    exact conduct_unnoted (dataPart_aloof _ _) hs
  have hfour := conduct_before (textPart_aloof change.content)
    fun g es (_ : ((stamp.before splice).before
    (dataPart k change.data)).on h₀ = (g, .ok es)) => textPart_owed change.content g es
  rw [handleAll_change hk hn]
  refine hfour.trans ?_
  refine Eq.trans (bind_unnoted hthree fun g g' hg hs => ?_)
    (congrArg _ (handleAll_append h [_, _, _] [_]).symm)
  rw [handleAll_text hk (hstamped hdata hg hs)]
  exact conduct_unnoted (textPart_aloof _) hs

end Handling

/-- A notebook with two cells, among workspaces of two folders. -/
def acrossFolders : Hub :=
  ((overFolders {} [("a", ⟨.single, ["a"]⟩), ("b", ⟨.single, ["b"]⟩)]).handleAll
    [.openNotebook ⟨"file:///a/n", "t", 1, none,
        [⟨.code, "file:///a/x", none, none⟩, ⟨.code, "file:///b/y", none, none⟩]⟩
      [⟨"file:///a/x", .unnamed, 1, "x"⟩, ⟨"file:///b/y", .unnamed, 1, "y"⟩]]).toOption.getD {}

/-- The first cell moves behind a new one, the new document is opened and edited, the moved one is
opened anew, and the other one is closed. -/
def rearranged : NotebookChange :=
  ⟨some (.obj []),
    some ⟨0, 2, [⟨.code, "file:///b/z", none, none⟩, ⟨.code, "file:///a/x", none, none⟩],
      [⟨"file:///b/z", .unnamed, 1, "z"⟩, ⟨"file:///a/x", .unnamed, 2, "x2"⟩], ["file:///b/y"]⟩,
    some [⟨.markup, "file:///a/x", none, none⟩],
    some [⟨"file:///b/z", 2, [.whole "zz"]⟩, ⟨"file:///b/y", 2, [.whole "yy"]⟩]⟩

theorem change_is_its_parts_rearranged :
    ∃ g, acrossFolders.handleAll [.changeNotebook "file:///a/n" 2 rearranged] = .ok g ∧
      g.calls.length = acrossFolders.calls.length + 6 ∧
      (acrossFolders.handleAll (rearranged.parts.map (.changeNotebook "file:///a/n" 2))).map
      unnoted =
        .ok g.unnoted := by
  have hok :
      (acrossFolders.handleAll [.changeNotebook "file:///a/n" 2 rearranged]).toOption.isSome =
      true := by
    decide +kernel
  have hkey : Uri.key "file:///a/n" = .ok ⟨"file:///a/n"⟩ := by decide +kernel
  have hopen : (acrossFolders.store.get? ⟨"file:///a/n"⟩).isSome = true := by decide +kernel
  have hrun := handleAll_getD hok {}
  refine ⟨_, hrun, by decide +kernel, ?_⟩
  rw [← change_is_its_parts hkey hopen, hrun]
  rfl

end Hub
end NotebookHub
