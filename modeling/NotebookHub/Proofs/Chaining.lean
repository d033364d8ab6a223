import Mathlib.Data.List.Nodup
import NotebookHub.Proofs.Replays
import NotebookHub.Proofs.Staging

namespace NotebookHub

def Notification.isPlain (n : Notification) : Bool := !n.restarts && !n.isClose

namespace Registry

theorem predecessor_linkAll_other {r : Registry} {links : List Link} {k : Key}
    (hk : ∀ l ∈ links, l.cell.key ≠ k) : (r.linkAll links).get? k = r.get? k := by
  induction links generalizing r with
  | nil => rfl
  | cons l links ih =>
    refine (@ih (r.link l.cell.key l.predecessor)
      fun l' hl' => hk l' (List.mem_cons_of_mem l hl')).trans ?_
    rw [get?_link, if_neg (hk l (by simp))]

/-- Of the links of one document the last one stays. -/
theorem predecessor_linkAll_last {r : Registry} {links : List Link} {k : Key} {d : Document}
    (hd : (r.linkAll links).get? k = some d) (hl : ∃ l ∈ links, l.cell.key = k) :
    ∃ (i : Nat) (l : Link), links[i]? = some l ∧ l.cell.key = k ∧ d.predecessor = l.predecessor ∧
      ∀ (j : Nat) (l' : Link), links[j]? = some l' → l'.cell.key = k → j ≤ i := by
  induction links generalizing r with
  | nil => simp at hl
  | cons l links ih =>
    by_cases hlater : ∃ l' ∈ links, l'.cell.key = k
    · obtain ⟨i, l', hi, hk, hp, hlast⟩ := @ih (r.link l.cell.key l.predecessor) hd hlater
      refine ⟨i + 1, l', hi, hk, hp, ?_⟩
      intro j l₂ hj hk₂
      cases j with
      | zero => exact Nat.zero_le _
      | succ j => exact Nat.succ_le_succ (hlast j l₂ hj hk₂)
    · have hother : ∀ l' ∈ links, l'.cell.key ≠ k := fun l' hm hk => hlater ⟨l', hm, hk⟩
      obtain ⟨l', hm, hk⟩ := hl
      obtain rfl : l' = l := (List.mem_cons.mp hm).resolve_right fun hm => hother l' hm hk
      have hlink : (r.linkAll (l' :: links)).get? k = (r.link l'.cell.key l'.predecessor).get? k :=
        predecessor_linkAll_other hother
      rw [hlink, get?_link, if_pos hk] at hd
      obtain ⟨d₀, _, rfl⟩ := Option.map_eq_some_iff.mp hd
      refine ⟨0, l', rfl, hk, rfl, ?_⟩
      intro j l₂ hj hk₂
      cases j with
      | zero => exact Nat.le_refl 0
      | succ j => exact absurd hk₂ (hother l₂ (List.mem_of_getElem? hj))

end Registry

def NamedAt (ds : List String) (i : Nat) (k : Key) : Prop :=
  ∃ d, ds[i]? = some d ∧ Uri.key d = .ok k

def documentBefore (ds : List String) (i : Nat) : Option String :=
  if i = 0 then none else ds[i - 1]?

namespace Hub

/-- Every open document of a list has the one that is listed before it as its predecessor. -/
def Chained (h : Hub) (ds : List String) : Prop :=
  ∀ p ∈ chainLinks ds, ∀ k d, Uri.key p.1 = .ok k → h.documents.get? k = some d →
    d.predecessor = p.2

theorem SameChains.refl (h : Hub) : SameChains h h := ⟨rfl, fun _ => rfl, fun _ => rfl⟩

theorem SameChains.trans {h g f : Hub} (a : SameChains h g) (b : SameChains g f) : SameChains h f :=
  ⟨b.passes.trans a.passes, fun k => (b.cells k).trans (a.cells k),
    fun k => (b.predecessors k).trans (a.predecessors k)⟩

theorem Speaks.chains {h g : Hub} (s : Speaks h g) : SameChains h g where
  passes := s.passes
  cells k := by simp only [cellsAt, s.store]
  predecessors k := by simp only [predecessorAt, s.documents]

theorem Chained.congr {h g : Hub} {ds : List String} (hc : h.Chained ds)
    (hs : ∀ p ∈ chainLinks ds, ∀ k, Uri.key p.1 = .ok k → g.predecessorAt k = h.predecessorAt k) :
    g.Chained ds := by
  intro p hp k d hk hd
  have hsame := hs p hp k hk
  rw [predecessorAt, hd, Option.map_some] at hsame
  obtain ⟨d', hd', he⟩ := Option.map_eq_some_iff.mp hsame.symm
  rw [← he]
  exact hc p hp k d' hk hd'

/-- Every open document of a list follows the document before the last place where it is listed. -/
def LinkedLast (h : Hub) (ds : List String) : Prop :=
  ∀ i k d, NamedAt ds i k → h.documents.get? k = some d →
    ∃ j, NamedAt ds j k ∧ d.predecessor = documentBefore ds j ∧ ∀ m, NamedAt ds m k → m ≤ j

/-- The documents of a list are named where its links are. -/
theorem namedAt_iff_link {ds : List String} {links : List Link}
    (hpairs : links.map Link.pair = chainLinks ds)
    (hsound : ∀ l ∈ links, l.cell.Sound) {i : Nat} {k : Key} :
    NamedAt ds i k ↔ ∃ l, links[i]? = some l ∧ l.cell.key = k := by
  have hpair : (links[i]?).map Link.pair = (chainLinks ds)[i]? := by
    rw [← hpairs, List.getElem?_map]
  constructor
  · rintro ⟨d, hd, hk⟩
    have hlink : (chainLinks ds)[i]? = some (d, documentBefore ds i) :=
      getElem?_chainLinks.mpr ⟨hd, rfl⟩
    rw [hlink] at hpair
    obtain ⟨l, hl, hpair⟩ := Option.map_eq_some_iff.mp hpair
    obtain rfl : l.cell.uri = d := congrArg Prod.fst hpair
    exact ⟨l, hl, Except.ok.inj ((hsound l (List.mem_of_getElem? hl)).key.symm.trans hk)⟩
  · rintro ⟨l, hl, rfl⟩
    rw [hl, Option.map_some] at hpair
    obtain ⟨hd, _⟩ := getElem?_chainLinks.mp hpair.symm
    exact ⟨l.cell.uri, hd, (hsound l (List.mem_of_getElem? hl)).key⟩

/-- Linking the cells of a list leaves each one behind the document before its last place. -/
theorem linkedLast_linkAll {h : Hub} {ds : List String} {links : List Link}
    (hpairs : links.map Link.pair = chainLinks ds) (hsound : ∀ l ∈ links, l.cell.Sound) :
    LinkedLast { h with documents := h.documents.linkAll links } ds := by
  intro i k d hi hd
  obtain ⟨l, hl, hk⟩ := (namedAt_iff_link hpairs hsound).mp hi
  obtain ⟨j, l', hj, hk', hp, hlast⟩ :=
    Registry.predecessor_linkAll_last hd ⟨l, List.mem_of_getElem? hl, hk⟩
  have hpair : (chainLinks ds)[j]? = some l'.pair := by rw [← hpairs, List.getElem?_map, hj]; rfl
  refine ⟨j, (namedAt_iff_link hpairs hsound).mpr ⟨l', hj, hk'⟩, ?_, ?_⟩
  · rw [hp]
    exact (getElem?_chainLinks.mp hpair).2
  · intro m hm
    obtain ⟨l₂, hl₂, hk₂⟩ := (namedAt_iff_link hpairs hsound).mp hm
    exact hlast m l₂ hl₂ hk₂

/-- Linking the cells of a list, no two under one key, chains them. -/
theorem chained_linkAll {h : Hub} {ds : List String} {links : List Link}
    (hpairs : links.map Link.pair = chainLinks ds) (hsound : ∀ l ∈ links, l.cell.Sound)
    (hkeys : (ds.map Uri.key).Nodup) :
    Chained { h with documents := h.documents.linkAll links } ds := by
  intro p hp k d hk hd
  obtain ⟨i, hi⟩ := List.mem_iff_getElem?.mp hp
  obtain ⟨hdoc, hbefore⟩ := getElem?_chainLinks.mp hi
  obtain ⟨j, ⟨d', hj, hk'⟩, hpred, _⟩ := linkedLast_linkAll hpairs hsound i k d ⟨p.1, hdoc, hk⟩ hd
  have hsame : (ds.map Uri.key)[i]? = (ds.map Uri.key)[j]? := by
    rw [List.getElem?_map, List.getElem?_map, hdoc, hj, Option.map_some, Option.map_some, hk, hk']
  have hlt : i < (ds.map Uri.key).length := by
    rw [List.length_map]
    exact (List.getElem?_eq_some_iff.mp hdoc).1
  obtain rfl : i = j := (List.getElem?_inj hlt hkeys).mp hsame
  rw [hpred, hbefore, documentBefore]

/-- A notification without structure alters no cell list and no link. -/
theorem begin_plain {n : Notification} {token : Option Token} {h g : Hub} {es : List Errand}
    (hn : n.isNotebook = true) (hp : n.isPlain = true) (hrun : (begin n token).on h = (g, .ok es)) :
    SameChains h g := by
  cases n with
  | openNotebook notebook items => simp [Notification.isPlain, Notification.restarts] at hp
  | closeNotebook uri cells => simp [Notification.isPlain, Notification.isClose] at hp
  | saveNotebook uri =>
    cases hrun
    exact ⟨rfl, fun _ => rfl, fun _ => rfl⟩
  | changeNotebook uri version change =>
    have hnone : change.structural = none := by
      simpa [Notification.isPlain, Notification.restarts, Notification.isClose] using hp
    obtain ⟨k, habout⟩ := about_of_begin hn (by simp) hrun
    rcases beginChange_spec habout.2 hrun with
      ⟨_, _, hsame⟩ | ⟨notebook, h₁, h₂, left, edits, _, hfirst, hs, hlast, _⟩
    · exact hsame
    · rw [hnone] at hs
      cases hs
      exact hfirst.trans hlast
  | openDocument item => cases hn
  | changeDocument change => cases hn
  | closeDocument uri => cases hn

/-- A structural change whose token is current chains the cells and leaves their links to be
published; under a token that is not current it leaves no pass. -/
theorem begin_structural {uri : String} {version : Int} {change : NotebookChange} {token : Token}
    {h g : Hub} {es : List Errand} {key : Key} (hk : Uri.key uri = .ok key) (hf : h.store.Filed)
    (hs : change.structural.isSome = true)
    (hrun : (begin (.changeNotebook uri version change) (some token)).on h = (g, .ok es))
    {ds : List String} (hds : g.cellsAt key = some ds) (hkeys : (ds.map Uri.key).Nodup) :
    (h.passes.isCurrent token = true → ∃ pass, passesOf es = [pass] ∧ pass.token = token ∧
      pass.links.map Link.pair = chainLinks ds ∧ (∀ l ∈ pass.links, l.cell.Sound) ∧ g.Chained ds) ∧
    (h.passes.isCurrent token = false → passesOf es = []) := by
  rcases beginChange_spec hk hrun with
    ⟨hnone, _, hsame⟩ | ⟨notebook, h₁, h₂, left, edits, hn, hfirst, hs', hlast, rfl⟩
  · rw [hsame.cells, cellsAt, hnone] at hds
    cases hds
  · obtain ⟨s, hs⟩ := Option.isSome_iff_exists.mp hs
    simp only [hs, changeStructure] at hs'
    obtain ⟨h₃, u, hu, hdone⟩ := Act.bind_eq_ok.mp hs'
    cases hdone
    obtain ⟨h', hpasses, hstages, hnothing⟩ :=
      applyStructure_spec s (some token) h₁.passes (hf key notebook hn) h₁ h₂ u rfl hu
    have hpasses : h'.passes = h.passes := hpasses.trans hfirst.passes
    have hcells : h'.cellsAt key = some ds := by rw [← hstages.cellsAt, ← hlast.cells, hds]
    rw [passesOf_append, passesOf_notices, List.append_nil]
    constructor
    · intro hc
      have hcurrent : h₁.passes.isCurrent token = true := by rw [hfirst.passes, hc]
      generalize hps : passesOf u.errands = ps at hstages hnothing
      cases hstages with
      | nothing _ =>
        exact absurd (List.Nodup.of_map _ hkeys) (hnothing rfl token ds rfl hcells hcurrent)
      | @pass pass htoken _ hstaged hbooks =>
        obtain ⟨ds', hds', _, hpairs, hsound⟩ := hstaged
        obtain rfl : ds = ds' := Option.some.inj (hcells.symm.trans hds')
        refine ⟨pass, rfl, (Option.some.inj htoken).symm, hpairs, hsound, ?_⟩
        have hchained := chained_linkAll (h := h') hpairs hsound hkeys
        rw [← hbooks] at hchained
        exact hchained.congr fun _ _ k _ => hlast.predecessors k
    · intro hc
      generalize hps : passesOf u.errands = ps at hstages
      cases hstages with
      | nothing _ => rfl
      | pass htoken hcurrent _ _ =>
        obtain rfl := Option.some.inj htoken
        rw [hpasses, hc] at hcurrent
        cases hcurrent

section Closed

variable {N : Key} {n : Notification} {h g : Hub}

/-- A closed notebook is closed once the closing is registered. -/
theorem begin_close {token : Option Token} {es : List Errand} (hn : n.About N)
    (hc : n.isClose = true)
    (hrun : (begin n token).on h = (g, .ok es)) : g.store.get? N = none := by
  cases n with
  | closeNotebook uri cells =>
    obtain ⟨_, k, hkey, hrun₁⟩ := Act.bind_eq_ok.mp hrun
    obtain ⟨rfl, hk⟩ := Act.keyOf_eq_ok.mp hkey
    obtain rfl : N = k := Except.ok.inj (hn.2.symm.trans hk)
    obtain ⟨h₂, _, hget, hrun₂⟩ := Act.bind_eq_ok.mp hrun₁
    cases hget
    split at hrun₂
    · rename_i hnone
      cases hrun₂
      exact hnone
    · obtain ⟨h₃, _, hmodify, hrun₃⟩ := Act.bind_eq_ok.mp hrun₂
      obtain ⟨h₄, _, hjot, hrun₄⟩ := Act.bind_eq_ok.mp hrun₃
      obtain ⟨h₅, ns, hcloses, hdone⟩ := Act.bind_eq_ok.mp hrun₄
      have hclosed : h₄.store.get? N = none := by
        cases hmodify
        cases hjot
        simp [note, Store.get?_close]
      have hkeep := registerCloses_keeps (P := fun h : Hub => h.store.get? N = none)
        (fun _ _ hp => hp)
        (fun _ _ hp => hp) cells h₄ hclosed
      rw [hcloses] at hkeep
      cases hdone
      exact hkeep
  | openNotebook => cases hc
  | changeNotebook => cases hc
  | saveNotebook => cases hc
  | openDocument => cases hc
  | changeDocument => cases hc
  | closeDocument => cases hc

theorem handle_close (hn : n.About N) (hc : n.isClose = true) (hrun : h.handle n = (g, none)) :
    g.store.get? N = none := by
  rcases handle_eq_ok hrun with ⟨uri, rfl, _⟩ | ⟨k, h₂, es, _, hbegin, rfl⟩
  · cases hc
  · rw [conclude_eq]
    dsimp only
    rw [(foldl_carryOut_speaks h₂ es).store]
    exact begin_close hn hc hbegin

/-- What is not open stays so when it is neither opened nor restructured. -/
theorem handle_closed (hn : n.About N) (hr : n.restarts = false) (hrun : h.handle n = (g, none))
    (hnone : h.store.get? N = none) : g.store.get? N = none := by
  cases hc : n.isClose with
  | true => exact handle_close hn hc hrun
  | false =>
    rcases handle_eq_ok hrun with ⟨uri, _, rfl⟩ | ⟨k, h₂, es, _, hbegin, rfl⟩
    · exact hnone
    · have hplain : n.isPlain = true := by simp [Notification.isPlain, hr, hc]
      have hcells := (begin_plain hn.1 hplain hbegin).cells N
      have hsame : h₂.cellsAt N = none := by simpa [cellsAt, hnone] using hcells
      rw [conclude_eq]
      dsimp only
      rw [(foldl_carryOut_speaks h₂ es).store]
      simpa [cellsAt] using hsame

theorem handleAll_closed {ns : List Notification} (hns : ∀ n ∈ ns, n.About N ∧ n.restarts = false)
    (hrun : h.handleAll ns = .ok g) (hnone : h.store.get? N = none) : g.store.get? N = none := by
  induction ns generalizing h with
  | nil =>
    cases hrun
    exact hnone
  | cons n ns ih =>
    rw [handleAll] at hrun
    split at hrun
    · rename_i h' hn
      obtain ⟨habout, hr⟩ := hns n (by simp)
      exact ih (fun m hm => hns m (List.mem_cons_of_mem n hm)) hrun
        (handle_closed habout hr hn hnone)
    · cases hrun

/-- A notebook that is closed last is closed in the end. -/
theorem handleAll_close {ns ms : List Notification} (hn : n.About N) (hc : n.isClose = true)
    (hms : ∀ m ∈ ms, m.About N ∧ m.restarts = false) (hrun : h.handleAll (ns ++ n :: ms) = .ok g) :
    g.store.get? N = none := by
  induction ns generalizing h with
  | nil =>
    rw [List.nil_append, handleAll] at hrun
    split at hrun
    · rename_i h' hh
      exact handleAll_closed hms hrun (handle_close hn hc hh)
    · cases hrun
  | cons m ns ih =>
    rw [List.cons_append, handleAll] at hrun
    split at hrun
    · exact ih hrun
    · cases hrun

end Closed

end Hub
end NotebookHub
