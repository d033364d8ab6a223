import Mathlib.Data.List.Pairwise
import NotebookHub.Proofs.Programs

namespace NotebookHub

namespace Registry

theorem predecessor_enter (r : Registry) (o : Opening) :
    (r.enter o).2.predecessor = o.predecessor := by
  unfold enter
  split <;> rfl

end Registry

def Notification.OpensCells : Notification → Prop
  | .openNotebook notebook items => items.map TextItem.uri = notebook.cells.map Cell.document
  | _ => True

instance (n : Notification) : Decidable n.OpensCells := by
  unfold Notification.OpensCells
  split <;> infer_instance

namespace Hub

/-- No document is listed twice, be it by one open notebook or by two. -/
def ListsOnce (h : Hub) : Prop :=
  ((h.store.notebooks.values.flatMap Notebook.documents).map Uri.key).Nodup

instance (h : Hub) : Decidable h.ListsOnce := inferInstanceAs (Decidable (List.Nodup _))

namespace ListsOnce

variable {h : Hub} {N M : Key} {ds es : List String}

theorem keys (hl : h.ListsOnce) (hds : h.cellsAt N = some ds) : (ds.map Uri.key).Nodup := by
  obtain ⟨n, hn, rfl⟩ := Option.map_eq_some_iff.mp hds
  have hmem : n ∈ h.store.notebooks.values := Table.mem_values_iff.mpr ⟨N, hn⟩
  rw [ListsOnce, List.map_flatMap] at hl
  exact (List.nodup_flatMap.mp hl).1 n hmem

theorem apart (hl : h.ListsOnce) (hne : N ≠ M) (hds : h.cellsAt N = some ds)
    (hes : h.cellsAt M = some es)
    {d e : String} (hd : d ∈ ds) (he : e ∈ es) : Uri.key d ≠ Uri.key e := by
  obtain ⟨n, hn, rfl⟩ := Option.map_eq_some_iff.mp hds
  obtain ⟨m, hm, rfl⟩ := Option.map_eq_some_iff.mp hes
  rw [ListsOnce, Table.values, List.flatMap_map, List.map_flatMap] at hl
  have hpairs := (List.nodup_flatMap.mp hl).2
  have hsymm :
      Std.Symm (Function.onFun List.Disjoint fun e : Key × Notebook => e.2.documents.map Uri.key) :=
    ⟨fun _ _ hxy _ hx hy => hxy hy hx⟩
  have hdisjoint := hpairs.forall (Table.get?_eq_some_iff.mp hn) (Table.get?_eq_some_iff.mp hm)
    fun hs => hne (congrArg Prod.fst hs)
  intro hkey
  exact hdisjoint (List.mem_map_of_mem hd) (hkey ▸ List.mem_map_of_mem he)

end ListsOnce

def LinkedAs (h : Hub) (k : Key) (p : Option String) : Prop :=
  ∀ d, h.documents.get? k = some d → d.predecessor = p

theorem LinkedAs.congr {h g : Hub} {k : Key} {p : Option String} (hl : h.LinkedAs k p)
    (hs : g.predecessorAt k = h.predecessorAt k) : g.LinkedAs k p := by
  intro d hd
  rw [predecessorAt, hd, Option.map_some] at hs
  obtain ⟨d', hd', he⟩ := Option.map_eq_some_iff.mp hs.symm
  rw [← he]
  exact hl d' hd'

section Operations

variable {k : Key} {p : Option String}

/-- An opened document has the predecessor that it is given, the others keep theirs. -/
theorem registerOpen_linked (item : TextItem) (mode : Mode) (q : Option String) :
    Act.Yields (LinkedAs · k p) (registerOpen item mode q) fun _ g =>
      g.LinkedAs k (if Uri.key item.uri = .ok k then q else p) := by
  intro h g n hp hrun
  obtain ⟨h₁, mode', hmode, hrun₁⟩ := Act.bind_eq_ok.mp hrun
  have hp₁ : h₁.LinkedAs k p := by
    have hkept := modeFor_preserves (P := (LinkedAs · k p)) item.uri mode h hp
    rwa [hmode] at hkept
  obtain ⟨_, _, hget, hrun₂⟩ := Act.bind_eq_ok.mp hrun₁
  cases hget
  obtain ⟨_, _, hjot, hrun₃⟩ := Act.bind_eq_ok.mp hrun₂
  cases hjot
  obtain ⟨_, d, henter, hdone⟩ := Act.bind_eq_ok.mp hrun₃
  cases hdone
  obtain ⟨_, a, hresolve, _⟩ := Act.bind_eq_ok.mp henter
  have ha := (Act.resolve_eq_ok.mp hresolve).2
  obtain ⟨js, hon⟩ := enterDocument_on ha mode' q (h₁.note (.openDocument item.uri mode' q))
  rw [henter] at hon
  cases hon
  intro d hd
  simp only [Registry.get?_enter, (Address.of_eq_ok ha).2.1, Except.ok.injEq] at hd ⊢
  split at hd
  · rename_i hk
    obtain rfl := Option.some.inj hd
    rw [if_pos hk, Registry.predecessor_enter]
  · rename_i hk
    rw [if_neg hk]
    exact hp₁ d hd

theorem registerOpens_linked {items : List TextItem} {predecessor : TextItem → Option String}
    (hnone : ∀ item ∈ items, Uri.key item.uri = .ok k → predecessor item = none) :
    Act.Yields (LinkedAs · k p) (registerOpens items predecessor) fun _ g =>
      g.LinkedAs k (if items.any fun item => Uri.key item.uri = .ok k then none else p) := by
  unfold registerOpens
  induction items generalizing p with
  | nil => exact .pure fun g hp => by simpa using hp
  | cons item items ih =>
    rw [List.mapM_cons]
    refine (registerOpen_linked item .cell (predecessor item)).bind fun _ => ?_
    refine (ih fun i hi => hnone i (List.mem_cons_of_mem item hi)).bind fun _ =>
      .pure fun g hg => ?_
    by_cases hk : Uri.key item.uri = .ok k
    · simpa [hk, hnone item (by simp) hk] using hg
    · simpa [hk] using hg

theorem registerClose_linked (uri : String) :
    Act.Preserves (LinkedAs · k p) (registerClose uri) := by
  refine registerClose_preserves (fun _ _ hp => hp) fun a _ g hg d hd => ?_
  dsimp only at hd
  rw [Registry.get?_close] at hd
  split at hd
  · cases hd
  · exact hg d hd

theorem registerCloses_linked (uris : List String) :
    Act.Preserves (LinkedAs · k p) (registerCloses uris) :=
  .mapM fun uri _ => registerClose_linked uri

theorem registerOpensInOrder_linked {items : List TextItem} (previous : Option String)
    (hk : ∀ item ∈ items, Uri.key item.uri ≠ .ok k) :
    Act.Yields (LinkedAs · k p) (registerOpensInOrder previous items)
      fun _ g => g.LinkedAs k p := by
  induction items generalizing previous with
  | nil => exact .pure fun _ hp => hp
  | cons item items ih =>
    have hfirst := registerOpen_linked (k := k) (p := p) item .cell previous
    simp only [hk item (by simp), if_false] at hfirst
    exact hfirst.bind fun _ => (ih _ fun i hi => hk i (List.mem_cons_of_mem item hi)).bind fun _ =>
      .pure fun _ hp => hp

theorem exists_linkedAs (h : Hub) (k : Key) : ∃ p, h.LinkedAs k p := by
  cases hd : h.documents.get? k with
  | none => exact ⟨none, fun d hd' => by simp [hd] at hd'⟩
  | some d => exact ⟨d.predecessor, fun d' hd' => by simp_all⟩

/-- Documents that are opened in order are linked in order. -/
theorem registerOpensInOrder_chain {items : List TextItem} {previous : Option String} {h g : Hub}
    {ns : List Notice} (hkeys : ((items.map TextItem.uri).map Uri.key).Nodup)
    (hrun : (registerOpensInOrder previous items).on h = (g, .ok ns)) :
    ∀ q ∈ linksAfter previous (items.map TextItem.uri), ∀ k, Uri.key q.1 = .ok k →
      g.LinkedAs k q.2 := by
  induction items generalizing previous h ns with
  | nil => simp [linksAfter]
  | cons item items ih =>
    simp only [List.map_cons, List.nodup_cons] at hkeys
    obtain ⟨h₁, n, hopen, hrun₁⟩ := Act.bind_eq_ok.mp hrun
    obtain ⟨h₂, ns', hrest, hdone⟩ := Act.bind_eq_ok.mp hrun₁
    cases hdone
    intro q hq k hk
    rcases List.mem_cons.mp hq with rfl | hq
    · -- what is opened behind it is another document
      have hother : ∀ i ∈ items, Uri.key i.uri ≠ .ok k := by
        intro i hi he
        apply hkeys.1
        rw [hk, ← he]
        exact List.mem_map_of_mem (List.mem_map_of_mem hi)
      obtain ⟨p, hp⟩ := exists_linkedAs h k
      have hfirst := registerOpen_linked item .cell previous h h₁ n hp hopen
      rw [if_pos hk] at hfirst
      exact registerOpensInOrder_linked _ hother h₁ g ns' hfirst hrest
    · exact ih hkeys.2 hrest q hq k hk

end Operations

/-- A pass over a notebook that does not list a document leaves it alone. -/
theorem Stages.elsewhere {M k : Key} {token : Option Token} {h g : Hub} {ps : List ChainPass}
    (hs : Stages M token h g ps) {ds : List String} (hds : h.cellsAt M = some ds)
    (hk : ∀ d ∈ ds, Uri.key d ≠ .ok k) : g.documents.get? k = h.documents.get? k := by
  cases hs with
  | nothing hbooks =>
    obtain ⟨journal, rfl⟩ := hbooks
    rfl
  | @pass pass _ _ hstaged hbooks =>
    obtain ⟨ds', hds', _, hpairs, hsound⟩ := hstaged
    obtain rfl := Option.some.inj (hds.symm.trans hds')
    rw [hbooks]
    refine Registry.predecessor_linkAll_other fun l hl he => ?_
    have hlisted : l.pair ∈ chainLinks ds := hpairs ▸ List.mem_map_of_mem hl
    exact hk l.cell.uri (mem_of_mem_linksAfter hlisted) (he ▸ (hsound l hl).key)

/-- What the structural change of one notebook does to a document that the notebook does not
list. -/
theorem applyStructure_elsewhere {M : Key} {notebook : Notebook} {change : StructureChange}
    {token : Option Token} {h g : Hub} {u : StructuralUpdate} (hM : Uri.key notebook.uri = .ok M)
    (hopen : (h.store.get? M).isSome)
    (hrun : (applyStructure M notebook change token).on h = (g, .ok u)) :
    ∃ ds, g.cellsAt M = some ds ∧ ∀ k p, (∀ d ∈ ds, Uri.key d ≠ .ok k) → h.LinkedAs k p →
      g.LinkedAs k
        (if change.opened.any fun item => Uri.key item.uri = .ok k then none else p) := by
  unfold applyStructure at hrun
  dsimp only at hrun
  generalize hcells : (splice notebook.cells change.start change.deleteCount change.inserted).1 =
    cells
    at hrun
  obtain ⟨h₁, _, hmodify, hrun₁⟩ := Act.bind_eq_ok.mp hrun
  obtain ⟨h₂, _, hreindex, hrun₂⟩ := Act.bind_eq_ok.mp hrun₁
  obtain ⟨h₃, _, hjot, hrun₃⟩ := Act.bind_eq_ok.mp hrun₂
  obtain ⟨h₄, opened, hopens, hrun₄⟩ := Act.bind_eq_ok.mp hrun₃
  obtain ⟨h₅, closed, hcloses, hrun₅⟩ := Act.bind_eq_ok.mp hrun₄
  have hspliced : h₃.cellsAt M = some (cells.map Cell.document) ∧ h₃.documents = h.documents := by
    cases hmodify
    rw [reindex_on] at hreindex
    obtain rfl := congrArg Prod.fst hreindex
    cases hjot
    obtain ⟨n, hn⟩ := Option.isSome_iff_exists.mp hopen
    simp [cellsAt, note, Store.get?_reindex, Store.get?_modify, hn, Notebook.documents]
  have hlisted : h₅.cellsAt M = some (cells.map Cell.document) := by
    have hopened := registerOpens_keeps (P := fun h => h.cellsAt M = some (cells.map Cell.document))
      (fun _ _ hp => hp) (fun _ _ hp => hp) change.opened
      (fun item => predecessorOf (cells.map Cell.document) item.uri) h₃ hspliced.1
    rw [hopens] at hopened
    have hclosed := registerCloses_keeps
      (P := fun h => h.cellsAt M = some (cells.map Cell.document))
      (fun _ _ hp => hp) (fun _ _ hp => hp) change.closed h₄ hopened
    rwa [hcloses] at hclosed
  have hlinked (k : Key) (p : Option String) (hk : ∀ d ∈ cells.map Cell.document, Uri.key d ≠ .ok k)
      (hp : h.LinkedAs k p) :
      h₅.LinkedAs k
        (if change.opened.any fun item => Uri.key item.uri = .ok k then none else p) := by
    have hnone : ∀ item ∈ change.opened, Uri.key item.uri = .ok k →
        predecessorOf (cells.map Cell.document) item.uri = none := by
      intro item _ hitem
      have hunlisted : item.uri ∉ cells.map Cell.document := fun hm => hk item.uri hm hitem
      simp [predecessorOf, List.idxOf?_eq_none_iff.mpr hunlisted]
    have hbefore : h₃.LinkedAs k p := by
      unfold LinkedAs
      rwa [hspliced.2]
    have hopened := registerOpens_linked hnone h₃ h₄ opened hbefore hopens
    have hclosed := registerCloses_linked change.closed h₄ hopened
    rwa [hcloses] at hclosed
  cases token with
  | none =>
    cases hrun₅
    exact ⟨_, hlisted, hlinked⟩
  | some t =>
    obtain ⟨h₆, links, hstage, hdone⟩ := Act.bind_eq_ok.mp hrun₅
    cases hdone
    have hstages := (stage_spec hM hstage).1
    refine ⟨_, (hstages.cellsAt M).trans hlisted, fun k p hk hp => ?_⟩
    intro d hd
    rw [hstages.elsewhere hlisted hk] at hd
    exact hlinked k p hk hp d hd

/-- A notebook that was opened has the cells that it was opened with. -/
theorem openInStore_cells {item : NotebookItem} {N : Key} (hN : Uri.key item.uri = .ok N) :
    Act.Yields (fun _ => True) (openInStore item) fun _ g =>
      g.cellsAt N = some (item.cells.map Cell.document) := by
  refine openInStore_yields hN (Act.Yields.any.bind fun metadata => ?_)
  refine Act.Yields.bind (Q := fun _ g => g.cellsAt N = some (item.cells.map Cell.document))
    (.modify fun g _ => ?_) fun _ => .of_preserves fun g hg => ?_
  · simp [cellsAt, Store.get?, Notebook.documents]
  · rw [reindex_on]
    simpa only [cellsAt, Store.get?_reindex] using hg

section Effects

variable {N M : Key} {token : Option Token} {h g : Hub} {es : List Errand}

/-- What the change of one notebook does to a document that the notebook does not list. -/
theorem begin_change_elsewhere {uri : String} {version : Int} {change : NotebookChange}
    (hM : Uri.key uri = .ok M) (hf : h.store.Filed) (hopen : (h.store.get? M).isSome)
    (hrun : (begin (.changeNotebook uri version change) token).on h = (g, .ok es)) :
    ∃ ds, g.cellsAt M = some ds ∧ ∀ k p, (∀ d ∈ ds, Uri.key d ≠ .ok k) → h.LinkedAs k p →
      g.LinkedAs k
        (if (Notification.changeNotebook uri version change).opens k then none else p) := by
  rcases beginChange_spec hM hrun with ⟨hnone, _⟩ |
    ⟨notebook, h₁, h₂, left, edits, hn, hfirst, hs, hlast, _⟩
  · simp [hnone] at hopen
  have hlinked (k : Key) (p : Option String) (hp : h.LinkedAs k p) : h₁.LinkedAs k p :=
    hp.congr (hfirst.predecessors k)
  have hlisted : h₁.cellsAt M = some notebook.documents := by rw [hfirst.cells, cellsAt, hn]; rfl
  cases hstructural : change.structural with
  | none =>
    simp only [hstructural, changeStructure] at hs
    cases hs
    refine ⟨_, (hlast.cells M).trans hlisted, fun k p _ hp => ?_⟩
    simp only [Notification.opens, Notification.opened, hstructural]
    exact (hlinked k p hp).congr (hlast.predecessors k)
  | some s =>
    simp only [hstructural, changeStructure] at hs
    obtain ⟨h₃, u, hu, hdone⟩ := Act.bind_eq_ok.mp hs
    cases hdone
    have hopen₁ : (h₁.store.get? M).isSome := by
      simpa [cellsAt] using congrArg Option.isSome hlisted
    obtain ⟨ds, hds, hrest⟩ := applyStructure_elsewhere (hf M notebook hn) hopen₁ hu
    refine ⟨ds, (hlast.cells M).trans hds, fun k p hk hp => ?_⟩
    simp only [Notification.opens, Notification.opened, hstructural, List.any_map,
      Function.comp_def]
    exact (hrest k p hk (hlinked k p hp)).congr (hlast.predecessors k)

/-- A notebook is opened with its cells listed, its documents in order, and a pass over them
perhaps. -/
theorem begin_open_spec {notebook : NotebookItem} {items : List TextItem}
    (hN : Uri.key notebook.uri = .ok N)
    (hrun : (begin (.openNotebook notebook items) token).on h = (g, .ok es)) :
    ∃ h₁ h₂ ns ps, h₁.documents = h.documents ∧ (registerOpensInOrder none items).on h₁ =
      (h₂, .ok ns) ∧
      h₂.cellsAt N = some (notebook.cells.map Cell.document) ∧ Stages N token h₂ g ps := by
  obtain ⟨h₁, _, hjot, hrun₁⟩ := Act.bind_eq_ok.mp hrun
  obtain ⟨h₂, _, hopen, hrun₂⟩ := Act.bind_eq_ok.mp hrun₁
  obtain ⟨h₃, ns, hopens, hrun₃⟩ := Act.bind_eq_ok.mp hrun₂
  obtain ⟨h₄, left, hstage, hdone⟩ := Act.bind_eq_ok.mp hrun₃
  cases hdone
  have hkept := registerOpensInOrder_keeps
    (P := fun h => h.cellsAt N = some (notebook.cells.map Cell.document)) (fun _ _ hp => hp)
    (fun _ _ hp => hp) none items h₂ (openInStore_cells hN h₁ h₂ _ trivial hopen)
  rw [hopens] at hkept
  have hdocuments := openInStore_keeps (P := fun g => g.documents = h.documents) (fun _ _ hp => hp)
    (fun _ _ hp => hp) notebook h₁ (by cases hjot; rfl)
  rw [hopen] at hdocuments
  exact ⟨h₂, h₃, ns, passesOf left, hdocuments, hopens, hkept, stageOnOpen_spec hN hstage⟩

theorem begin_open_cells {notebook : NotebookItem} {items : List TextItem}
    (hN : Uri.key notebook.uri = .ok N)
    (hrun : (begin (.openNotebook notebook items) token).on h = (g, .ok es)) :
    g.cellsAt N = some (notebook.cells.map Cell.document) := by
  obtain ⟨_, _, _, _, _, _, hlisted, hstages⟩ := begin_open_spec hN hrun
  exact (hstages.cellsAt N).trans hlisted

/-- A notebook that is opened with the documents of its cells is put in order. -/
theorem begin_open_chained {notebook : NotebookItem} {items : List TextItem}
    (hN : Uri.key notebook.uri = .ok N)
    (hitems : items.map TextItem.uri = notebook.cells.map Cell.document)
    (hkeys : ((notebook.cells.map Cell.document).map Uri.key).Nodup)
    (hrun : (begin (.openNotebook notebook items) token).on h = (g, .ok es)) :
    g.Chained (notebook.cells.map Cell.document) := by
  obtain ⟨h₁, h₂, ns, ps, _, hopens, hlisted, hstages⟩ := begin_open_spec hN hrun
  have hchained : h₂.Chained (notebook.cells.map Cell.document) := by
    rw [← hitems] at hkeys ⊢
    exact fun q hq k d hk => registerOpensInOrder_chain hkeys hopens q hq k hk d
  cases hstages with
  | nothing hbooks =>
    obtain ⟨journal, rfl⟩ := hbooks
    exact hchained
  | pass _ _ hstaged hbooks =>
    obtain ⟨ds, hds, _, hpairs, hsound⟩ := hstaged
    obtain rfl := Option.some.inj (hlisted.symm.trans hds)
    rw [hbooks]
    exact chained_linkAll hpairs hsound hkeys

theorem begin_close_linked {uri : String} {cells : List String} {k : Key} {p : Option String}
    (hrun : (begin (.closeNotebook uri cells) token).on h = (g, .ok es)) (hp : h.LinkedAs k p) :
    g.LinkedAs k p := by
  have hkeep : Act.Preserves (LinkedAs · k p) (beginClose uri cells) :=
    beginClose_preserves (fun _ _ hp => hp) (fun _ _ _ hp => hp)
      fun uri _ => registerClose_linked uri
  have hg := hkeep h hp
  rwa [show (beginClose uri cells).on h = (g, .ok es) from hrun] at hg

def reachesAside (h : Hub) (N : Key) : Notification → Bool
  | .openDocument _ => h.route = .registry
  | .changeNotebook uri .. => (Uri.key uri).toOption.any fun M => M ≠ N && (h.store.get? M).isSome
  | _ => false

def opensAside (h : Hub) (N k : Key) (n : Notification) : Bool := h.reachesAside N n && n.opens k

/-- What is opened over the text channel has no predecessor. -/
theorem begin_text_linked {n : Notification} (hn : n.isNotebook = false)
    (hrun : (begin n token).on h = (g, .ok es)) {k : Key} {p : Option String}
    (hp : h.LinkedAs k p) :
    g.LinkedAs k (if h.opensAside N k n then none else p) := by
  cases n with
  | openNotebook | changeNotebook | saveNotebook | closeNotebook => cases hn
  | openDocument item =>
    obtain ⟨_, _, hget, hrun₁⟩ := Act.bind_eq_ok.mp hrun
    cases hget
    split at hrun₁
    · rename_i hroute
      obtain ⟨h₁, n, hopen, hdone⟩ := Act.bind_eq_ok.mp hrun₁
      cases hdone
      simpa [opensAside, reachesAside, hroute, Notification.opens, Notification.opened] using
        registerOpen_linked item .file none _ _ _ hp hopen
    · rename_i hroute
      cases hrun₁
      simp only [opensAside, reachesAside, hroute]
      exact hp
  | changeDocument change =>
    obtain ⟨_, _, hget, hrun₁⟩ := Act.bind_eq_ok.mp hrun
    cases hget
    split at hrun₁
    · obtain ⟨h₁, n, hchange, hdone⟩ := Act.bind_eq_ok.mp hrun₁
      cases hdone
      have hsame := registerChange_chains h change .file h (.refl h)
      rw [hchange] at hsame
      exact hp.congr (hsame.predecessors k)
    · cases hrun₁
      exact hp
  | closeDocument uri =>
    obtain ⟨_, _, hget, hrun₁⟩ := Act.bind_eq_ok.mp hrun
    cases hget
    split at hrun₁
    · obtain ⟨h₁, n, hclose, hdone⟩ := Act.bind_eq_ok.mp hrun₁
      cases hdone
      have hclosed := registerClose_linked uri h hp
      rwa [hclose] at hclosed
    · cases hrun₁
      exact hp

/-- What a notification that is not about a notebook does to the documents of its cells. -/
theorem begin_elsewhere {n : Notification} (hf : h.store.Filed) (hN : ¬ n.About N)
    (hone : h.ListsOnce)
    (hone' : g.ListsOnce) (hcells : n.OpensCells) (hrun : (begin n token).on h = (g, .ok es))
    {ds : List String} (hds : h.cellsAt N = some ds) {d : String} (hd : d ∈ ds) {k : Key}
    (hk : Uri.key d = .ok k) {p : Option String} (hp : h.LinkedAs k p) :
    g.LinkedAs k (if h.opensAside N k n then none else p) := by
  have hds' : g.cellsAt N = some ds := by
    rw [cellsAt, (registers_of_begin (C := fun _ => True) hrun fun _ _ => trivial).store N hN]
    exact hds
  cases n with
  | openNotebook notebook items =>
    obtain ⟨M, habout⟩ := about_of_begin rfl (by simp) hrun
    have hM : Uri.key notebook.uri = .ok M := habout.2
    have hne : N ≠ M := fun he => hN (he ▸ habout)
    have hes' : g.cellsAt M = some (notebook.cells.map Cell.document) :=
      begin_open_cells hM hrun
    have hlisted : ∀ e ∈ notebook.cells.map Cell.document, Uri.key e ≠ .ok k := fun e he =>
      hk ▸ (hone'.apart hne hds' hes' hd he).symm
    have hlinks := (registers_of_begin (C := fun e => Uri.key e ≠ .ok k) hrun hlisted).links hf
    have hsame := hlinks (fun M' m hM' hm e he => ?_) k (fun hu => ?_) fun e he => he
    · intro d hd
      rw [hsame] at hd
      exact hp d hd
    · obtain rfl : M = M' := Except.ok.inj (hM.symm.trans hM'.2)
      exact hk ▸ (hone.apart hne hds (by rw [cellsAt, hm]; rfl) hd he).symm
    · obtain ⟨u, hu, huk⟩ := hu
      have htouched : u ∈ notebook.cells.map Cell.document := by
        rw [← show items.map TextItem.uri = _ from hcells]
        exact hu
      exact hlisted u htouched huk
  | changeNotebook uri version change =>
    obtain ⟨M, habout⟩ := about_of_begin rfl (by simp) hrun
    have hM : Uri.key uri = .ok M := habout.2
    have hne : M ≠ N := fun he => hN (he ▸ habout)
    by_cases hopen : (h.store.get? M).isSome
    · obtain ⟨es, hes, hlinked⟩ := begin_change_elsewhere hM hf hopen hrun
      have hapart : ∀ e ∈ es, Uri.key e ≠ .ok k := fun e he =>
        hk ▸ (hone'.apart hne.symm hds' hes hd he).symm
      simpa [opensAside, reachesAside, hM, hne, hopen, Except.toOption] using hlinked k p hapart hp
    · have hsame : SameChains h g := by
        rcases beginChange_spec hM hrun with ⟨_, _, hsame⟩ | ⟨notebook, _, _, _, _, hn, _⟩
        · exact hsame
        · simp [hn] at hopen
      simpa [opensAside, reachesAside, hM, hopen, Except.toOption] using hp.congr
        (hsame.predecessors k)
  | saveNotebook uri =>
    cases hrun
    exact hp
  | closeNotebook uri cells => exact begin_close_linked hrun hp
  | openDocument | changeDocument | closeDocument => exact begin_text_linked rfl hrun hp

end Effects

/-- Whether a document was opened aside from a notebook since the cells of that notebook were put in
order, once a notification is handled. -/
def adrift (h : Hub) (N k : Key) (was : Bool) (n : Notification) : Bool :=
  if n.restarts && n.worksOn N then false else was || h.opensAside N k n

def adriftAfter (h : Hub) (N k : Key) (was : Bool) : List Notification → Bool
  | [] => was
  | n :: ns => (h.handle n).1.adriftAfter N k (h.adrift N k was n) ns

/-- The open cells of a notebook stand in its chain, those apart that are adrift. -/
def InPlace (h : Hub) (N : Key) (away : Key → Bool) : Prop :=
  ∀ ds, h.cellsAt N = some ds → ∀ q ∈ chainLinks ds, ∀ k, Uri.key q.1 = .ok k →
    h.LinkedAs k (if away k then none else q.2)

section Positions

variable {h g : Hub} {N : Key} {away : Key → Bool} {n : Notification}

theorem Chained.inPlace {ds : List String} (hc : h.Chained ds) (hds : h.cellsAt N = some ds)
    (haway : ∀ k, away k = false) : h.InPlace N away := by
  intro ds' hds' q hq k hk d hd
  obtain rfl := Option.some.inj (hds.symm.trans hds')
  simpa [haway] using hc q hq k d hk hd

theorem InPlace.congr (hp : h.InPlace N away) (hcells : g.cellsAt N = h.cellsAt N)
    (hpredecessors : ∀ k, g.predecessorAt k = h.predecessorAt k) : g.InPlace N away := by
  intro ds hds q hq k hk
  rw [hcells] at hds
  exact (hp ds hds q hq k hk).congr (hpredecessors k)

/-- Opening or restructuring a notebook puts its cells in order. -/
theorem handle_restarts (hf : h.store.Filed) (hn : n.About N) (hr : n.restarts = true)
    (hone : g.ListsOnce)
    (hcells : n.OpensCells) (hrun : h.handle n = (g, none)) : g.InPlace N fun _ => false := by
  intro ds hds
  refine Chained.inPlace (?_ : g.Chained ds) hds (fun _ => rfl) ds hds
  have hkeys := hone.keys hds
  cases n with
  | openNotebook notebook items =>
    rcases handle_eq_ok hrun with ⟨_, he, _⟩ | ⟨_, h', es, _, hbegin, rfl⟩
    · cases he
    have hchains := (foldl_carryOut_speaks h' es).chains
    rw [conclude_eq] at hds ⊢
    have hopened : h'.cellsAt N = some (notebook.cells.map Cell.document) :=
      begin_open_cells hn.2 hbegin
    obtain rfl := Option.some.inj (((hchains.cells N).trans hopened).symm.trans hds)
    have hchained := begin_open_chained hn.2 hcells hkeys hbegin
    exact hchained.congr fun _ _ k _ => hchains.predecessors k
  | changeNotebook uri version change => exact handle_structural hf hrun hr hn.2 hds hkeys
  | saveNotebook | closeNotebook | openDocument | changeDocument | closeDocument => cases hr

/-- What is about a notebook and does not put its cells in order opens nothing aside. -/
theorem handle_settles (hp : h.InPlace N away) (hn : n.About N) (hr : n.restarts = false)
    (hrun : h.handle n = (g, none)) : g.InPlace N away := by
  cases hc : n.isClose with
  | true =>
    intro ds hds
    simp [cellsAt, handle_close hn hc hrun] at hds
  | false =>
    rcases handle_eq_ok hrun with ⟨uri, rfl, rfl⟩ | ⟨_, h', es, _, hbegin, rfl⟩
    · exact hp.congr rfl fun _ => rfl
    · have hplain : n.isPlain = true := by simp [Notification.isPlain, hr, hc]
      have hchains := (begin_plain hn.1 hplain hbegin).trans (foldl_carryOut_speaks h' es).chains
      rw [conclude_eq]
      exact hp.congr (hchains.cells N) hchains.predecessors

/-- What is in place stays so, but for what is opened aside. -/
theorem InPlace.handle (hp : h.InPlace N away) (hf : h.store.Filed) (hone : h.ListsOnce)
    (hone' : g.ListsOnce) (hcells : n.OpensCells) (hrun : h.handle n = (g, none)) :
    g.InPlace N fun k => h.adrift N k (away k) n := by
  by_cases hN : n.About N
  · cases hr : n.restarts with
    | true =>
      have hworks : n.worksOn N = true :=
        Notification.worksOn_iff.mpr ⟨hN, by rintro uri rfl; cases hr⟩
      simp only [adrift, hr, hworks, Bool.and_self, if_true]
      exact handle_restarts hf hN hr hone' hcells hrun
    | false =>
      have haside (k : Key) : h.opensAside N k n = false := by
        cases n with
        | changeNotebook uri version change =>
          have hk : Uri.key uri = .ok N := hN.2
          simp [opensAside, reachesAside, hk, Except.toOption]
        | openDocument => cases hN.1
        | openNotebook | saveNotebook | closeNotebook | changeDocument | closeDocument => rfl
      simp only [adrift, hr, haside, Bool.false_and, Bool.or_false]
      exact handle_settles hp hN hr hrun
  · have hworks : n.worksOn N = false := by
      by_contra hw
      exact hN (Notification.worksOn_iff.mp (by simpa using hw)).1
    simp only [adrift, hworks, Bool.and_false]
    rcases handle_eq_ok hrun with ⟨uri, rfl, rfl⟩ | ⟨M, h', es, _, hbegin, rfl⟩
    · intro ds hds q hq k hk
      simp only [opensAside, reachesAside, Bool.false_and, Bool.or_false]
      exact hp ds hds q hq k hk
    have hspeaks := foldl_carryOut_speaks h' es
    intro ds hds q hq k hk
    rw [conclude_eq] at hds hone' ⊢
    have hone₁ : h'.ListsOnce := by
      unfold ListsOnce
      rw [← hspeaks.store]
      exact hone'
    have hds₁ : h'.cellsAt N = some ds := (hspeaks.chains.cells N).symm.trans hds
    have hds₀ : h.cellsAt N = some ds := by
      have hstore := (registers_of_begin (C := fun _ => True) hbegin fun _ _ => trivial).store N hN
      rw [cellsAt, hstore] at hds₁
      exact hds₁
    have hlinked := begin_elsewhere (h := { h with passes := h.passesAt n M }) hf hN hone
      hone₁ hcells hbegin
      hds₀ (mem_of_mem_linksAfter hq) hk (hp ds hds₀ q hq k hk)
    have haside : opensAside { h with passes := h.passesAt n M } N k n = h.opensAside N k n := by
      cases n <;> rfl
    refine LinkedAs.congr ?_ (hspeaks.chains.predecessors k)
    rw [haside] at hlinked
    cases ha : h.opensAside N k n <;> simpa [ha] using hlinked

/-- In a run that never lists a document twice, what is in place stays so, but for what is opened
aside. -/
theorem InPlace.handleAll {ns : List Notification} (hp : h.InPlace N away) (hf : h.store.Filed)
    (hone : ∀ before h', before <+: ns → h.handleAll before = .ok h' → h'.ListsOnce)
    (hcells : ∀ n ∈ ns, n.OpensCells) (hrun : h.handleAll ns = .ok g) :
    g.InPlace N fun k => h.adriftAfter N k (away k) ns := by
  induction ns generalizing h away with
  | nil =>
    cases hrun
    exact hp
  | cons n ns ih =>
    obtain ⟨h', hn, hrest⟩ := handleAll_cons_eq_ok.mp hrun
    have hfirst : h.ListsOnce := hone [] h (List.nil_prefix) rfl
    have hnext : h'.ListsOnce := hone [n] h' ⟨ns, rfl⟩ (handleAll_cons_eq_ok.mpr ⟨h', hn, rfl⟩)
    have hplaced := hp.handle hf hfirst hnext (hcells n (by simp)) hn
    simp only [adriftAfter, hn]
    refine ih hplaced (handle_filed hf hn) (fun before e hb he => ?_)
      (fun m hm => hcells m (List.mem_cons_of_mem n hm)) hrest
    exact hone (n :: before) e (List.cons_prefix_cons.mpr ⟨rfl, hb⟩)
      (handleAll_cons_eq_ok.mpr ⟨h', hn, he⟩)

end Positions

/-- In a run that opens notebooks with the documents of their cells and never lists a document
twice, an open cell has the one before it as its predecessor; but none if it was opened aside since
its notebook was last opened or restructured. -/
theorem predecessor_unless_adrift {settings : Settings} {route : Route} {roster : Roster}
    {ns : List Notification} {h : Hub}
    (hrun : Hub.handleAll { settings, route, roster } ns = .ok h)
    (hcells : ∀ n ∈ ns, n.OpensCells)
    (hone : ∀ before h', before <+: ns → Hub.handleAll { settings, route, roster } before = .ok h' →
      h'.ListsOnce)
    {N : Key} {notebook : Notebook} (hn : h.store.get? N = some notebook) {i : Nat} {d : String}
    (hd : notebook.documents[i]? = some d) {k : Key} (hk : Uri.key d = .ok k) {document : Document}
    (hdocument : h.documents.get? k = some document) :
    document.predecessor =
      if Hub.adriftAfter { settings, route, roster } N k false ns then none
      else if i = 0 then none else notebook.documents[i - 1]? := by
  have hstart : InPlace { settings, route, roster } N fun _ => false := by
    intro ds hds
    simp [cellsAt, Store.get?] at hds
  have hfiled : Store.Filed {} := fun k n hn => by simp [Store.get?] at hn
  have hplaced := hstart.handleAll hfiled hone hcells hrun
  have hlink : (d, if i = 0 then none else notebook.documents[i - 1]?) ∈
      chainLinks notebook.documents :=
    List.mem_of_getElem? (getElem?_chainLinks.mpr ⟨hd, rfl⟩)
  exact hplaced notebook.documents (by rw [cellsAt, hn]; rfl) _ hlink k hk document hdocument

/-- The second cell of a notebook is closed and opened again by itself. -/
def reopened : List Notification :=
  [.openNotebook ⟨"nb:1", "t", 1, none, [⟨.code, "c:a", none, none⟩, ⟨.code, "c:b", none, none⟩]⟩
      [⟨"c:a", .unnamed, 1, "a"⟩, ⟨"c:b", .unnamed, 1, "b"⟩],
    .closeDocument "c:b", .openDocument ⟨"c:b", .unnamed, 1, "b"⟩]

def appended : NotebookChange :=
  ⟨none, some ⟨2, 0, [⟨.code, "c:c", none, none⟩], [⟨"c:c", .unnamed, 1, "c"⟩], []⟩, none, none⟩

def hubAfter (ns : List Notification) : Hub := (Hub.handleAll {} ns).toOption.getD {}

/-- The cell that was opened again has lost its predecessor, and has it again once the notebook was
restructured. -/
theorem predecessor_unless_adrift_reopened :
    (∃ d, (hubAfter reopened).documents.get? ⟨"c:b"⟩ = some d ∧ d.predecessor = none) ∧
      ∃ d, (hubAfter (reopened ++ [.changeNotebook "nb:1" 2 appended])).documents.get? ⟨"c:b"⟩ =
        some d ∧
        d.predecessor = some "c:a" := by
  have hplaced (ns : List Notification) (hok : (Hub.handleAll {} ns).toOption.isSome)
      (hcells : ∀ n ∈ ns, n.OpensCells) (hall : ∀ i ≤ ns.length,
        (Hub.handleAll {} (ns.take i)).toOption.all fun h => decide h.ListsOnce)
      (hlisted : (((hubAfter ns).store.get? ⟨"nb:1"⟩).bind fun n => n.documents[1]?) = some "c:b")
      (hopen : ((hubAfter ns).documents.get? ⟨"c:b"⟩).isSome) :
      ∃ d, (hubAfter ns).documents.get? ⟨"c:b"⟩ = some d ∧ d.predecessor =
        if Hub.adriftAfter {} ⟨"nb:1"⟩ ⟨"c:b"⟩ false ns then none
        else ((hubAfter ns).store.get? ⟨"nb:1"⟩).bind fun n => n.documents[0]? := by
    have hrun : Hub.handleAll {} ns = .ok (hubAfter ns) := handleAll_getD hok {}
    have hone (before : List Notification) (h' : Hub) (hb : before <+: ns)
        (hr : Hub.handleAll {} before = .ok h') : h'.ListsOnce := by
      have hchecked := hall before.length hb.length_le
      rw [← List.prefix_iff_eq_take.mp hb, hr] at hchecked
      simpa [Except.toOption] using hchecked
    have hkey : Uri.key "c:b" = .ok ⟨"c:b"⟩ := by decide +kernel
    obtain ⟨notebook, hn, hd⟩ := Option.bind_eq_some_iff.mp hlisted
    obtain ⟨d, hdocument⟩ := Option.isSome_iff_exists.mp hopen
    refine ⟨d, hdocument, ?_⟩
    rw [hn]
    exact predecessor_unless_adrift hrun hcells hone hn hd hkey hdocument
  constructor
  · obtain ⟨d, hd, hp⟩ := hplaced reopened (by decide +kernel) (by decide +kernel)
      (by decide +kernel)
      (by decide +kernel) (by decide +kernel)
    exact ⟨d, hd, hp.trans (by decide +kernel)⟩
  · obtain ⟨d, hd, hp⟩ := hplaced (reopened ++ [.changeNotebook "nb:1" 2 appended])
      (by decide +kernel)
      (by decide +kernel) (by decide +kernel) (by decide +kernel) (by decide +kernel)
    exact ⟨d, hd, hp.trans (by decide +kernel)⟩

end Hub
end NotebookHub
