import NotebookHub.Proofs.Chaining
import NotebookHub.Proofs.Notices

namespace NotebookHub

/-- The first link of a document stands where the document is first listed. -/
theorem find?_linksAfter (previous : Option String) (ds : List String) (d : String) :
    (linksAfter previous ds).find? (·.1 = d) =
      (ds.idxOf? d).map fun i => (d, if i = 0 then previous else ds[i - 1]?) := by
  induction ds generalizing previous with
  | nil => rfl
  | cons e ds ih =>
    rw [linksAfter, List.idxOf?_cons]
    by_cases he : e = d
    · simp [he]
    · rw [List.find?_cons_of_neg (by simpa using he), ih, if_neg (by simpa using he),
        Option.map_map]
      cases ds.idxOf? d with
      | none => rfl
      | some i => cases i <;> simp

/-- What is listed before a document is what its first link says. -/
theorem predecessorOf_eq_find? (ds : List String) (d : String) :
    predecessorOf ds d = ((chainLinks ds).find? (·.1 = d)).bind Prod.snd := by
  rw [chainLinks, find?_linksAfter, predecessorOf]
  cases ds.idxOf? d with
  | none => rfl
  | some i => cases i <;> simp

/-- In a list without repetition each document has one link. -/
theorem predecessorOf_of_mem {ds : List String} (hds : ds.Nodup) {p : String × Option String}
    (hp : p ∈ chainLinks ds) :
    predecessorOf ds p.1 = p.2 := by
  obtain ⟨i, hi⟩ := List.mem_iff_getElem?.mp hp
  obtain ⟨hdoc, hbefore⟩ := getElem?_chainLinks.mp hi
  have hfirst : ds.idxOf? p.1 = some i := by
    obtain ⟨hlt, hget⟩ := List.getElem?_eq_some_iff.mp hdoc
    refine List.idxOf?_eq_some_iff.mpr ⟨hlt, hget, fun j hj he => ?_⟩
    exact hj.ne (hds.getElem_inj_iff.mp (he.trans hget.symm))
  rw [predecessorOf, hfirst, hbefore]
  cases i <;> simp

def Notice.opening? : Notice → Option (Key × Option String)
  | .opened a _ _ _ _ predecessor => some (a.key, predecessor)
  | _ => none

theorem Act.exists_on_eq_ok {α : Type} {a : Act α} {h : Hub}
    (hok : (a.on h).2.toOption.isSome = true) :
    ∃ g x, a.on h = (g, .ok x) := by
  rcases hrun : a.on h with ⟨g, _ | x⟩
  · rw [hrun] at hok
    cases hok
  · exact ⟨g, x, rfl⟩

namespace Hub

variable {h g : Hub} {n : Notification}

theorem Tells.openings {ns : List Notice} (ht : h.Tells n ns) :
    ns.filterMap Notice.opening? = (h.openings n).filterMap
      fun p => (Uri.key p.1).toOption.map (·, p.2) := by
  obtain ⟨opened, closed, edited, rfl, ho, hc, he⟩ := ht
  have hopened : opened.filterMap Notice.opening? =
      (h.openings n).filterMap fun p => (Uri.key p.1).toOption.map (·, p.2) := by
    refine filterMap_of_forall₂ (fun p x hx => ?_) ho
    obtain ⟨a, life, version, text, mode, rfl, hk⟩ := hx
    rw [hk]
    rfl
  have hclosed : closed.filterMap Notice.opening? = [] := by
    rw [List.filterMap_eq_nil_iff]
    intro x hx
    obtain ⟨uri, _, a, rfl, _⟩ := exists_of_forall₂ hc x hx
    rfl
  have hedited : edited.filterMap Notice.opening? = [] := by
    rw [List.filterMap_eq_nil_iff]
    intro x hx
    obtain ⟨c, _, a, life, settled, rfl, _⟩ := he x hx
    rfl
  rw [List.filterMap_append, List.filterMap_append, hopened, hclosed, hedited, List.append_nil,
    List.append_nil]

variable {uri : String} {version : Int} {change : NotebookChange} {s : StructureChange}
  {token : Token} {N : Key}
  {es : List Errand} {ds : List String}

/-- What a structural change opens is said to follow what the notebook lists before it in the
end. -/
theorem openings_of_change (hf : h.store.Filed) (hs : h.Shelved)
    (hchange : change.structural = some s) (hN : Uri.key uri = .ok N)
    (hrun : (begin (.changeNotebook uri version change) (some token)).on h = (g, .ok es))
    (hds : g.cellsAt N = some ds) :
    (noticesOf es).filterMap Notice.opening? =
      s.opened.filterMap
        fun item => (Uri.key item.uri).toOption.map (·, predecessorOf ds item.uri) := by
  have habout : (Notification.changeNotebook uri version change).About N := ⟨rfl, hN⟩
  have hcells := begin_cells hf habout hrun
  rw [hds] at hcells
  simp only [Notification.relist, hchange] at hcells
  obtain ⟨before, hbefore, rfl⟩ := Option.map_eq_some_iff.mp hcells.symm
  have hopen : (h.store.get? N).isSome = true := by
    have hlisted := congrArg Option.isSome hbefore
    simpa [cellsAt] using hlisted
  have hheeds : h.heeds (.changeNotebook uri version change) = true := by
    rw [heeds, heeds_of_key hN, hopen]
  have hlist : h.cellsOf uri = before := by rw [cellsOf_eq hN, hbefore, Option.getD_some]
  rw [((begin_tells hs hrun).1 hheeds).openings]
  simp only [openings, hchange, hlist, List.filterMap_map]
  rfl

/-- A link that was staged says of its cell what was said when that was opened by its own name. -/
theorem predecessor_of_staged {pass : ChainPass} (hpairs : pass.links.map Link.pair = chainLinks ds)
    (hsound : ∀ l ∈ pass.links, l.cell.Sound) (hds : ds.Nodup) {item : TextItem} {k : Key}
    (hk : Uri.key item.uri = .ok k)
    (hnamed : ∀ d ∈ ds, Uri.key item.uri = Uri.key d → item.uri = d) {l : Link}
    (hl : l ∈ pass.links) (hcell : l.cell.key = k) : l.predecessor = predecessorOf ds item.uri := by
  have hlisted : l.pair ∈ chainLinks ds := hpairs ▸ List.mem_map_of_mem hl
  have hsame : item.uri = l.cell.uri :=
    hnamed _ (mem_of_mem_linksAfter hlisted) (by rw [hk, (hsound l hl).key, hcell])
  rw [hsame]
  exact (predecessorOf_of_mem hds hlisted).symm

end Hub

namespace Dispatcher

/-- What is listed before a document, whatever the list, is what the first link of the document
says, and nothing if it has none. After any run, whatever tokens are current, let a structural
change be registered that leaves a list of cells that are all different, and let it call the cells
that it opens by their names in that list. Then what it opens is said to follow what is listed
before it, and if its token is current, the links that it stages for these cells say the same. -/
theorem predecessors_told_as_staged :
    (∀ (ds : List String) (d : String),
      predecessorOf ds d = ((chainLinks ds).find? (·.1 = d)).bind Prod.snd) ∧
    ∀ {settings : Settings} {route : Route} {roster : Roster} {events : List Event}
      {passes : Passes} {h g : Hub} {uri : String} {version : Int} {change : NotebookChange}
      {s : StructureChange} {token : Token} {es : List Errand} {N : Key} {ds : List String},
      h = { ((fresh settings route roster).run events).hub with passes } →
      change.structural = some s → Uri.key uri = .ok N →
      (Hub.begin (.changeNotebook uri version change) (some token)).on h = (g, .ok es) →
      g.cellsAt N = some ds → (ds.map Uri.key).Nodup →
      (∀ item ∈ s.opened, ∀ d ∈ ds, Uri.key item.uri = Uri.key d → item.uri = d) →
      (noticesOf es).filterMap Notice.opening? =
        s.opened.filterMap
          (fun item => (Uri.key item.uri).toOption.map (·, predecessorOf ds item.uri)) ∧
      (h.passes.isCurrent token = true → ∃ pass, passesOf es = [pass] ∧ pass.token = token ∧
        pass.links.map Link.pair = chainLinks ds ∧
        ∀ o ∈ (noticesOf es).filterMap Notice.opening?, ∀ l ∈ pass.links, l.cell.key = o.1 →
          l.predecessor = o.2) := by
  refine ⟨predecessorOf_eq_find?, ?_⟩
  rintro settings route roster events passes h g uri version change s token es N ds rfl hchange hN
    hrun hds hkeys hnamed
  have hf :=
    ((sound_fresh settings route roster).run (orderly_fresh settings route roster) events).filed
  have hs := shelved_run settings route roster events
  generalize ((fresh settings route roster).run events).hub = h at *
  have hopened := Hub.openings_of_change (h := { h with passes }) hf hs hchange hN hrun hds
  refine ⟨hopened, fun hcurrent => ?_⟩
  obtain ⟨pass, hpasses, htoken, hpairs, hsound, _⟩ :=
    (Hub.begin_structural (h := { h with passes }) hN hf (by simp [hchange]) hrun hds hkeys).1
      hcurrent
  refine ⟨pass, hpasses, htoken, hpairs, fun o ho l hl hcell => ?_⟩
  rw [hopened] at ho
  obtain ⟨item, hi, ho⟩ := List.mem_filterMap.mp ho
  obtain ⟨hk, hsaid⟩ := keyed_eq_some.mp ho
  rw [← hsaid]
  exact Hub.predecessor_of_staged hpairs hsound (.of_map _ hkeys) hk (hnamed item hi) hl hcell

def couple : NotebookItem :=
  ⟨"nb:1", "t", 1, none, [⟨.code, "c:a", none, none⟩, ⟨.code, "c:b", none, none⟩]⟩

def coupled : List Event :=
  [.arrive (.openNotebook couple [⟨"c:a", .unnamed, 1, "a"⟩, ⟨"c:b", .unnamed, 1, "b"⟩])]

def retaken : Hub :=
  { ((fresh {} .registry (.start true)).run coupled).hub with passes := ⟨Table.empty.insert
    ⟨"nb:1"⟩ 2, 2⟩ }

/-- Two cells come in place of its second one, and their texts the other way round. -/
def inPlace : StructureChange where
  start := 1
  deleteCount := 1
  inserted := [⟨.code, "c:c", none, none⟩, ⟨.code, "c:d", none, none⟩]
  opened := [⟨"c:d", .unnamed, 1, "d"⟩, ⟨"c:c", .unnamed, 1, "c"⟩]
  closed := ["c:b"]

def exchange : Act (List Errand) :=
  Hub.begin (.changeNotebook "nb:1" 2 ⟨none, some inPlace, none, none⟩) (some ⟨⟨"nb:1"⟩, 2⟩)

theorem predecessors_told_as_staged_inPlace :
    ∃ (g : Hub) (es : List Errand) (pass : ChainPass), exchange.on retaken = (g, .ok es) ∧
      (noticesOf es).filterMap Notice.opening? = [(⟨"c:d"⟩, some "c:c"), (⟨"c:c"⟩, some "c:a")] ∧
      passesOf es = [pass] ∧ pass.links.map Link.pair =
        [("c:a", none), ("c:c", some "c:a"), ("c:d", some "c:c")] ∧
      ∀ l ∈ pass.links, l.cell.key = ⟨"c:d"⟩ → l.predecessor = some "c:c" := by
  have hretaken : retaken = { ((fresh {} .registry (.start true)).run coupled).hub with
      passes := ⟨Table.empty.insert ⟨"nb:1"⟩ 2, 2⟩ } := rfl
  have hok : (exchange.on retaken).2.toOption.isSome = true := by decide +kernel
  obtain ⟨g, es, hrun⟩ := Act.exists_on_eq_ok hok
  have hcells : (exchange.on retaken).1.cellsAt ⟨"nb:1"⟩ = some ["c:a", "c:c", "c:d"] := by
    decide +kernel
  rw [hrun] at hcells
  have hkeys : (["c:a", "c:c", "c:d"].map Uri.key).Nodup := by decide +kernel
  have hnamed : ∀ item ∈ inPlace.opened, ∀ d ∈ ["c:a", "c:c", "c:d"], Uri.key item.uri =
      Uri.key d → item.uri = d := by
    decide +kernel
  obtain ⟨hopened, hstaged⟩ :=
    predecessors_told_as_staged.2 hretaken rfl (by decide +kernel) hrun hcells hkeys hnamed
  have hopened : (noticesOf es).filterMap Notice.opening? =
      [(⟨"c:d"⟩, some "c:c"), (⟨"c:c"⟩, some "c:a")] :=
    hopened.trans (by decide +kernel)
  obtain ⟨pass, hpasses, _, hpairs, hsame⟩ := hstaged (by decide +kernel)
  refine ⟨g, es, pass, hrun, hopened, hpasses, hpairs.trans (by decide), fun l hl hcell => ?_⟩
  exact hsame (⟨"c:d"⟩, some "c:c") (by rw [hopened]; simp) l hl hcell

end Dispatcher
end NotebookHub
