import NotebookHub.Proofs.Scopes

namespace NotebookHub

def Errand.pass? : Errand → Option ChainPass
  | .notice _ => none
  | .publish p => some p

def passesOf (es : List Errand) : List ChainPass := es.filterMap Errand.pass?

theorem mem_passesOf {es : List Errand} {p : ChainPass} : p ∈ passesOf es ↔ .publish p ∈ es := by
  simp only [passesOf, List.mem_filterMap]
  constructor
  · rintro ⟨e, he, hp⟩
    cases e with
    | notice n => cases hp
    | publish q =>
      obtain rfl := Option.some.inj hp
      exact he
  · exact fun hp => ⟨_, hp, rfl⟩

theorem passesOf_append (es fs : List Errand) : passesOf (es ++ fs) = passesOf es ++ passesOf fs :=
  List.filterMap_append

@[simp] theorem passesOf_notices (ns : List Notice) : passesOf (ns.map .notice) = [] := by
  simp [passesOf, Errand.pass?]

theorem getElem?_linksAfter (previous : Option String) (ds : List String) (i : Nat) :
    (linksAfter previous ds)[i]? =
      (ds[i]?).map fun d => (d, if i = 0 then previous else ds[i - 1]?) := by
  induction ds generalizing previous i with
  | nil => simp [linksAfter]
  | cons d ds ih =>
    cases i with
    | zero => simp [linksAfter]
    | succ i =>
      cases i with
      | zero => simp [linksAfter, ih]
      | succ i => simp [linksAfter, ih]

/-- A document of a chain follows the one that is listed before it. -/
theorem getElem?_chainLinks {ds : List String} {i : Nat} {d : String} {p : Option String} :
    (chainLinks ds)[i]? = some
    (d, p) ↔ ds[i]? = some d ∧ p = if i = 0 then none else ds[i - 1]? := by
  rw [chainLinks, getElem?_linksAfter]
  cases ds[i]? with
  | none => simp
  | some d' => simp [eq_comm]

def Link.pair (l : Link) : String × Option String := (l.cell.uri, l.predecessor)

def Registry.linkAll (r : Registry) (links : List Link) : Registry :=
  links.foldl (fun r l => r.link l.cell.key l.predecessor) r

namespace Registry

@[simp] theorem lives_linkAll (r : Registry) (links : List Link) :
    (r.linkAll links).lives = r.lives := by
  induction links generalizing r with
  | nil => rfl
  | cons l links ih => exact ih (r.link l.cell.key l.predecessor)

/-- Links change nothing else of a document. -/
theorem get?_linkAll_unlinked (r : Registry) (links : List Link) (k : Key) :
    ((r.linkAll links).get? k).map Document.unlinked = (r.get? k).map Document.unlinked := by
  induction links generalizing r with
  | nil => rfl
  | cons l links ih =>
    apply (ih (r.link l.cell.key l.predecessor)).trans
    rw [get?_link]
    split
    · cases r.get? k <;> rfl
    · rfl

end Registry

namespace Hub

def cellsAt (h : Hub) (k : Key) : Option (List String) := (h.store.get? k).map Notebook.documents

theorem linkCells_spec {pairs : List (String × Option String)} {h g : Hub} {links : List Link}
    (hrun : (linkCells pairs).on h = (g, .ok links)) :
    links.map Link.pair = pairs ∧ (∀ l ∈ links, l.cell.Sound) ∧
      g = { h with documents := h.documents.linkAll links } := by
  induction pairs generalizing h links with
  | nil =>
    cases hrun
    exact ⟨rfl, by simp, rfl⟩
  | cons p pairs ih =>
    obtain ⟨h₁, a, hresolve, hrun₁⟩ := Act.bind_eq_ok.mp hrun
    obtain ⟨rfl, ha⟩ := Act.resolve_eq_ok.mp hresolve
    obtain ⟨h₂, _, hlink, hrun₂⟩ := Act.bind_eq_ok.mp hrun₁
    obtain ⟨h₃, rest, hrest, hrun₃⟩ := Act.bind_eq_ok.mp hrun₂
    cases hlink
    cases hrun₃
    obtain ⟨hpairs, hsound, rfl⟩ := ih hrest
    refine ⟨?_, ?_, rfl⟩
    · simp [Link.pair, hpairs, (Address.of_eq_ok ha).1]
    · intro l hl
      rcases List.mem_cons.mp hl with rfl | hl
      · exact Address.sound_of ha
      · exact hsound l hl

/-- A pass whose links are the chain of the cells of an open notebook, no two of them the same. -/
def Staged (h : Hub) (k : Key) (pass : ChainPass) : Prop :=
  ∃ ds, h.cellsAt k = some ds ∧ ds.Nodup ∧ pass.links.map Link.pair = chainLinks ds ∧
    ∀ l ∈ pass.links, l.cell.Sound

/-- Staging under a token went from `h` to `g` and left passes to be published: one, or none. -/
inductive Stages (k : Key) (token : Option Token) (h g : Hub) : List ChainPass → Prop
  | nothing (hbooks : ∃ journal, g = { h with journal }) : Stages k token h g []
  | pass {pass : ChainPass} (htoken : token = some pass.token)
      (hcurrent : h.passes.isCurrent pass.token = true) (hstaged : h.Staged k pass)
      (hbooks : g = { h with documents := h.documents.linkAll pass.links }) :
      Stages k token h g [pass]

namespace Stages

variable {k : Key} {token : Option Token} {h g : Hub} {ps : List ChainPass}

theorem store (hs : Stages k token h g ps) : g.store = h.store := by
  cases hs with
  | nothing hbooks =>
    obtain ⟨journal, rfl⟩ := hbooks
    rfl
  | pass _ _ _ hbooks => rw [hbooks]

theorem passes (hs : Stages k token h g ps) : g.passes = h.passes := by
  cases hs with
  | nothing hbooks =>
    obtain ⟨journal, rfl⟩ := hbooks
    rfl
  | pass _ _ _ hbooks => rw [hbooks]

theorem cellsAt (hs : Stages k token h g ps) (k' : Key) : g.cellsAt k' = h.cellsAt k' := by
  simp only [Hub.cellsAt, hs.store]

/-- A pass to be published is one of the token given, which is current, and of the cells at hand. -/
theorem of_mem (hs : Stages k token h g ps) {pass : ChainPass} (hp : pass ∈ ps) :
    token = some pass.token ∧ g.passes.isCurrent pass.token = true ∧ g.Staged k pass := by
  have hpasses := hs.passes
  have hcells := hs.cellsAt k
  cases hs with
  | nothing hbooks => simp at hp
  | pass htoken hcurrent hstaged hbooks =>
    obtain rfl := List.mem_singleton.mp hp
    refine ⟨htoken, by rw [hpasses, hcurrent], ?_⟩
    unfold Staged
    rw [hcells]
    exact hstaged

end Stages

/-- A stage does nothing, or links the whole chain of a notebook without duplicates under a current
token. -/
theorem stage_spec {uri : String} {token : Token} {h g : Hub} {k : Key} {r : Option (List Link)}
    (hk : Uri.key uri = .ok k) (hrun : (stage uri token).on h = (g, .ok r)) :
    Stages k (some token) h g (passesOf (passErrand uri token r)) ∧
      (r = none → ∀ ds, h.cellsAt k = some ds → h.passes.isCurrent token = true → ¬ ds.Nodup) := by
  obtain ⟨h₁, k', hkey, hrun₁⟩ := Act.bind_eq_ok.mp hrun
  obtain ⟨rfl, hk'⟩ := Act.keyOf_eq_ok.mp hkey
  obtain rfl : k = k' := Except.ok.inj (hk.symm.trans hk')
  obtain ⟨_, _, hget, hrest⟩ := Act.bind_eq_ok.mp hrun₁
  cases hget
  cases hn : h₁.store.get? k with
  | none =>
    simp only [hn] at hrest
    cases hrest
    exact ⟨.nothing ⟨_, rfl⟩, fun _ ds hds => by simp [cellsAt, hn] at hds⟩
  | some notebook =>
    have hcells : h₁.cellsAt k = some notebook.documents := by simp [cellsAt, hn]
    simp only [hn] at hrest
    cases hc : h₁.passes.isCurrent token with
    | false =>
      simp only [hc, Bool.not_false, if_true] at hrest
      cases hrest
      exact ⟨.nothing ⟨_, rfl⟩, fun _ _ _ h => by cases h⟩
    | true =>
      by_cases hd : notebook.documents.Nodup
      · simp only [hc, hasDuplicates, hd] at hrest
        obtain ⟨h₃, links, hlinks, hdone⟩ := Act.bind_eq_ok.mp hrest
        cases hdone
        obtain ⟨hpairs, hsound, rfl⟩ := linkCells_spec hlinks
        let pass : ChainPass := ⟨uri, token, links, links.length⟩
        have hstaged : h₁.Staged k pass := ⟨_, hcells, hd, hpairs, hsound⟩
        exact ⟨.pass rfl hc hstaged rfl, nofun⟩
      · simp only [hc, hasDuplicates, hd] at hrest
        cases hrest
        refine ⟨.nothing ⟨_, rfl⟩, fun _ ds hds _ => ?_⟩
        obtain rfl := Option.some.inj (hcells.symm.trans hds)
        exact hd

theorem stageOnOpen_spec {uri : String} {token : Option Token} {h g : Hub} {k : Key}
    {es : List Errand}
    (hk : Uri.key uri = .ok k) (hrun : (stageOnOpen uri token).on h = (g, .ok es)) :
    Stages k token h g (passesOf es) := by
  unfold stageOnOpen at hrun
  cases token with
  | none =>
    cases hrun
    exact .nothing ⟨_, rfl⟩
  | some t =>
    obtain ⟨_, _, hget, hrest⟩ := Act.bind_eq_ok.mp hrun
    cases hget
    split at hrest
    · obtain ⟨h₁, r, hstage, hdone⟩ := Act.bind_eq_ok.mp hrest
      cases hdone
      exact (stage_spec hk hstage).1
    · cases hrest
      exact .nothing ⟨_, rfl⟩

/-- A structural change stages last. -/
theorem applyStructure_spec {key : Key} {notebook : Notebook} (change : StructureChange)
    (token : Option Token) (passes : Passes) (hk : Uri.key notebook.uri = .ok key) :
    Act.Yields (fun h => h.passes = passes) (applyStructure key notebook change token) fun u g =>
      ∃ h, h.passes = passes ∧ Stages key token h g (passesOf u.errands) ∧
        (passesOf u.errands = [] → ∀ t ds, token = some t → h.cellsAt key = some ds →
          passes.isCurrent t = true → ¬ ds.Nodup) := by
  have hkeep {α : Type} {a : Act α} (ha : Act.Preserves (fun h => h.passes = passes) a) :=
    Act.Yields.of_preserves ha
  have hmodify (f : Hub → Hub) (hf : ∀ h, (f h).passes = h.passes) :
      Act.Yields (fun h => h.passes = passes) (modify f) fun _ h => h.passes = passes :=
    .modify fun h hp => (hf h).trans hp
  unfold applyStructure
  dsimp only
  refine (hmodify _ (by intro _; rfl)).bind fun _ => ?_
  refine (hkeep (reindex_keeps (fun _ _ hp => hp) key)).bind fun _ => ?_
  refine (hmodify _ (by intro _; rfl)).bind fun _ => ?_
  refine (hkeep (registerOpens_keeps (fun _ _ hp => hp) (fun _ _ hp => hp) _ _)).bind
    fun opened => ?_
  refine (hkeep (registerCloses_keeps (fun _ _ hp => hp) (fun _ _ hp => hp) _)).bind
    fun closed => ?_
  cases token with
  | none =>
    refine .pure fun g hp => ⟨g, hp, ?_, fun _ _ _ ht => nomatch ht⟩
    simpa [StructuralUpdate.errands, passesOf_append] using .nothing ⟨g.journal, rfl⟩
  | some t =>
    intro h g u hp hrun
    obtain ⟨h₁, r, hstage, hdone⟩ := Act.bind_eq_ok.mp hrun
    cases hdone
    obtain ⟨hstages, hnone⟩ := stage_spec hk hstage
    refine ⟨h, hp, ?_, fun hnil t' ds ht hds hc => ?_⟩
    · simpa [StructuralUpdate.errands, passesOf_append] using hstages
    · obtain rfl := Option.some.inj ht
      refine hnone ?_ ds hds (hp ▸ hc)
      cases r with
      | none => rfl
      | some links => simp [StructuralUpdate.errands, passErrand, passesOf, Errand.pass?] at hnil

def predecessorAt (h : Hub) (k : Key) : Option (Option String) :=
  (h.documents.get? k).map Document.predecessor

/-- What a chain pass depends on and brings about. -/
structure SameChains (h g : Hub) : Prop where
  passes : g.passes = h.passes
  cells : ∀ k, g.cellsAt k = h.cellsAt k
  predecessors : ∀ k, g.predecessorAt k = h.predecessorAt k

/-- A notebook was changed, but not its list. -/
theorem SameChains.modifyStore {h g : Hub} (hs : SameChains h g) {key : Key}
    {f : Notebook → Notebook}
    (hf : ∀ n, g.store.get? key = some n → (f n).documents = n.documents) :
    SameChains h { g with store := g.store.modify key f } where
  passes := hs.passes
  cells k := by
    rw [← hs.cells k]
    simp only [cellsAt, Store.get?_modify]
    split
    · rename_i hk
      subst hk
      cases hn : g.store.get? key with
      | none => rfl
      | some n => simp [hf n hn]
    · rfl
  predecessors := hs.predecessors

theorem jot_chains (h : Hub) (n : Note) : Act.Preserves (SameChains h) (Act.jot n) :=
  fun _ hs => ⟨hs.passes, hs.cells, hs.predecessors⟩

theorem applyData_chains (h : Hub) (key : Key) (updates : List Cell) :
    Act.Preserves (SameChains h) (applyData key updates) := by
  refine applyData_preserves (jot_chains h) fun notebook g hn hs => hs.modifyStore fun n hn' => ?_
  obtain rfl := Option.some.inj (hn.symm.trans hn')
  exact documents_applyCellData notebook.cells updates

theorem registerChange_chains (h : Hub) (change : ContentChange) (mode : Mode) :
    Act.Preserves (SameChains h) (registerChange change mode) := by
  refine registerChange_preserves (jot_chains h) mode
    (.keyOf_bind fun key _ => .get_bind fun g hg => ?_)
  dsimp only
  split
  · exact jot_chains h _ g hg
  · refine ⟨hg.passes, hg.cells, fun k => ?_⟩
    rw [← hg.predecessors k]
    simp only [predecessorAt, Act.on_bind, Act.on_modify, Act.on_pure, Registry.get?_update]
    split
    · cases g.documents.get? k <;> rfl
    · rfl

/-- Data and text of cells have nothing to do with cell lists and links. -/
theorem changeCells_chains (h : Hub) (key : Key) (change : NotebookChange) :
    Act.Preserves (SameChains h) (changeCells key change) :=
  changeCells_preserves (applyData_chains h key) fun c _ => registerChange_chains h c .cell

theorem applyVersion_chains (h : Hub) (key : Key) (version : Int) (metadata : Option Json) :
    Act.Preserves (SameChains h) (applyVersion key version metadata) := by
  refine (Act.Preserves.modify fun g hg => hg.modifyStore fun _ _ => rfl).bind fun _ => ?_
  split
  · exact .pure _
  · exact (metadataOf_preserves _).bind fun _ => .modify fun g hg => hg.modifyStore fun _ _ => rfl

theorem SameChains.staged {h g : Hub} (hs : SameChains h g) {k : Key} {pass : ChainPass}
    (hp : h.Staged k pass) : g.Staged k pass := by
  unfold Staged
  rw [hs.cells]
  exact hp

/-- How the change of an open notebook goes: its structure first, then its cells. -/
theorem beginChange_spec {uri : String} {version : Int} {change : NotebookChange}
    {token : Option Token} {h g : Hub} {es : List Errand} {key : Key} (hk : Uri.key uri = .ok key)
    (hrun : (beginChange uri version change token).on h = (g, .ok es)) :
    (h.store.get? key = none ∧ es = [] ∧ SameChains h g) ∨
      ∃ (notebook : Notebook) (h₁ h₂ : Hub) (left : List Errand) (edits : List Notice),
        h.store.get? key = some notebook ∧ SameChains h h₁ ∧
        (changeStructure key notebook change.structural token).on h₁ = (h₂, .ok left) ∧
        SameChains h₂ g ∧ es = left ++ edits.map .notice := by
  obtain ⟨h₀, _, hjot, hrun₁⟩ := Act.bind_eq_ok.mp hrun
  cases hjot
  obtain ⟨_, key', hkey, hrun₂⟩ := Act.bind_eq_ok.mp hrun₁
  obtain ⟨rfl, hk'⟩ := Act.keyOf_eq_ok.mp hkey
  obtain rfl : key = key' := Except.ok.inj (hk.symm.trans hk')
  obtain ⟨_, _, hget, hrun₃⟩ := Act.bind_eq_ok.mp hrun₂
  cases hget
  have hsame : SameChains h (h.note (.changeNotebook uri version)) :=
    ⟨rfl, fun _ => rfl, fun _ => rfl⟩
  cases hn : h.store.get? key with
  | none =>
    have hn' : (h.note (.changeNotebook uri version)).store.get? key = none := hn
    simp only [hn'] at hrun₃
    cases hrun₃
    exact .inl ⟨rfl, rfl, rfl, fun _ => rfl, fun _ => rfl⟩
  | some notebook =>
    have hn' : (h.note (.changeNotebook uri version)).store.get? key = some notebook := hn
    simp only [hn'] at hrun₃
    obtain ⟨h₁, _, hversion, hrun₄⟩ := Act.bind_eq_ok.mp hrun₃
    obtain ⟨h₂, left, hstructure, hrun₅⟩ := Act.bind_eq_ok.mp hrun₄
    obtain ⟨h₃, edits, hcells, hdone⟩ := Act.bind_eq_ok.mp hrun₅
    cases hdone
    have h₁same := applyVersion_chains h key version change.metadata _ hsame
    rw [hversion] at h₁same
    have h₂same := changeCells_chains h₂ key change h₂ ⟨rfl, fun _ => rfl, fun _ => rfl⟩
    rw [hcells] at h₂same
    exact .inr ⟨notebook, h₁, h₂, left, edits, rfl, h₁same, hstructure, h₂same, rfl⟩

/-- Only the opening and the change of a notebook leave passes to be published. -/
theorem begin_leaves_notices {n : Notification} {token : Option Token} {h g : Hub}
    {es : List Errand} (hopen : ∀ notebook items, n ≠ .openNotebook notebook items)
    (hchange : ∀ uri version change, n ≠ .changeNotebook uri version change)
    (hrun : (begin n token).on h = (g, .ok es)) : ∃ ns : List Notice, es = ns.map .notice := by
  cases n with
  | openNotebook notebook items => exact absurd rfl (hopen notebook items)
  | changeNotebook uri version change => exact absurd rfl (hchange uri version change)
  | saveNotebook uri =>
    cases hrun
    exact ⟨[], rfl⟩
  | closeNotebook uri cells =>
    obtain ⟨_, k, _, hrun₁⟩ := Act.bind_eq_ok.mp hrun
    obtain ⟨_, _, _, hrun₂⟩ := Act.bind_eq_ok.mp hrun₁
    split at hrun₂
    · cases hrun₂
      exact ⟨[], rfl⟩
    · obtain ⟨_, _, _, hrun₃⟩ := Act.bind_eq_ok.mp hrun₂
      obtain ⟨_, _, _, hrun₄⟩ := Act.bind_eq_ok.mp hrun₃
      obtain ⟨_, ns, _, hdone⟩ := Act.bind_eq_ok.mp hrun₄
      cases hdone
      exact ⟨ns, rfl⟩
  | openDocument item =>
    obtain ⟨_, _, _, hrun₁⟩ := Act.bind_eq_ok.mp hrun
    split at hrun₁
    · obtain ⟨_, n, _, hdone⟩ := Act.bind_eq_ok.mp hrun₁
      cases hdone
      exact ⟨[n], rfl⟩
    · cases hrun₁
      exact ⟨[], rfl⟩
  | changeDocument change =>
    obtain ⟨_, _, _, hrun₁⟩ := Act.bind_eq_ok.mp hrun
    split at hrun₁
    · obtain ⟨_, n, _, hdone⟩ := Act.bind_eq_ok.mp hrun₁
      cases hdone
      exact ⟨n.toList, rfl⟩
    · cases hrun₁
      exact ⟨[], rfl⟩
  | closeDocument uri =>
    obtain ⟨_, _, _, hrun₁⟩ := Act.bind_eq_ok.mp hrun
    split at hrun₁
    · obtain ⟨_, n, _, hdone⟩ := Act.bind_eq_ok.mp hrun₁
      cases hdone
      exact ⟨[n], rfl⟩
    · cases hrun₁
      exact ⟨[], rfl⟩

/-- What is registered of a notebook, saves apart, is about one. -/
theorem about_of_begin {n : Notification} (hn : n.isNotebook = true)
    (hsave : ∀ uri, n ≠ .saveNotebook uri) {token : Option Token} {h g : Hub} {es : List Errand}
    (hrun : (begin n token).on h = (g, .ok es)) :
    ∃ k, n.About k := by
  cases n with
  | openNotebook notebook items =>
    obtain ⟨_, _, _, hrun₁⟩ := Act.bind_eq_ok.mp hrun
    obtain ⟨_, _, hopen, _⟩ := Act.bind_eq_ok.mp hrun₁
    obtain ⟨_, k, hkey, _⟩ := Act.bind_eq_ok.mp hopen
    exact ⟨k, rfl, (Act.keyOf_eq_ok.mp hkey).2⟩
  | changeNotebook uri version change =>
    obtain ⟨_, _, _, hrun₁⟩ := Act.bind_eq_ok.mp hrun
    obtain ⟨_, k, hkey, _⟩ := Act.bind_eq_ok.mp hrun₁
    exact ⟨k, rfl, (Act.keyOf_eq_ok.mp hkey).2⟩
  | closeNotebook uri cells =>
    obtain ⟨_, k, hkey, _⟩ := Act.bind_eq_ok.mp hrun
    exact ⟨k, rfl, (Act.keyOf_eq_ok.mp hkey).2⟩
  | saveNotebook uri => exact absurd rfl (hsave uri)
  | openDocument | changeDocument | closeDocument => cases hn

/-- A pass that is left to be published is the handler's own and the notebook's present one. -/
theorem begin_passes {n : Notification} {token : Option Token} {h g : Hub} {es : List Errand}
    (hrun : (begin n token).on h = (g, .ok es)) (hf : h.store.Filed) {pass : ChainPass}
    (hp : pass ∈ passesOf es) :
    ∃ k, n.About k ∧ token = some pass.token ∧ g.passes.isCurrent pass.token = true ∧
      g.Staged k pass := by
  cases n with
  | openNotebook notebook items =>
    obtain ⟨h₁, _, hjot, hrun₁⟩ := Act.bind_eq_ok.mp hrun
    obtain ⟨h₂, _, hopen, hrun₂⟩ := Act.bind_eq_ok.mp hrun₁
    obtain ⟨h₃, ns, hitems, hrun₃⟩ := Act.bind_eq_ok.mp hrun₂
    obtain ⟨h₄, left, hstage, hdone⟩ := Act.bind_eq_ok.mp hrun₃
    cases hdone
    obtain ⟨k, habout⟩ := about_of_begin rfl (by simp) hrun
    rw [passesOf_append, passesOf_notices, List.nil_append] at hp
    exact ⟨k, habout, (stageOnOpen_spec habout.2 hstage).of_mem hp⟩
  | changeNotebook uri version change =>
    obtain ⟨k, habout⟩ := about_of_begin rfl (by simp) hrun
    have hk : Uri.key uri = .ok k := habout.2
    rcases beginChange_spec hk hrun with ⟨_, rfl, _⟩ |
      ⟨notebook, h₁, h₂, left, edits, hn, _, hs, hsame, rfl⟩
    · simp [passesOf] at hp
    · rw [passesOf_append, passesOf_notices, List.append_nil] at hp
      unfold changeStructure at hs
      split at hs
      · cases hs
        simp [passesOf] at hp
      · obtain ⟨h₃, u, hu, hdone⟩ := Act.bind_eq_ok.mp hs
        cases hdone
        obtain ⟨h', _, hstages, _⟩ := applyStructure_spec _ _ _ (hf k notebook hn) h₁ h₂ u rfl hu
        obtain ⟨htoken, hcurrent, hstaged⟩ := hstages.of_mem hp
        exact ⟨k, habout, htoken, by rw [hsame.passes, hcurrent], hsame.staged hstaged⟩
  | saveNotebook _ | closeNotebook _ _ | openDocument _ | changeDocument _ | closeDocument _ =>
    obtain ⟨ns, rfl⟩ := begin_leaves_notices (by simp) (by simp) hrun
    simp at hp

end Hub
end NotebookHub
