import Mathlib.Data.Fintype.Card
import Mathlib.Data.Set.Finite.List
import Mathlib.Logic.Relation
import Mathlib.Order.WellFounded
import NotebookHub.Proofs.Chaining

namespace NotebookHub

theorem NamedAt.lt_length {ds : List String} {i : Nat} {k : Key} (h : NamedAt ds i k) :
    i < ds.length := by
  obtain ⟨d, hd, _⟩ := h
  exact (List.getElem?_eq_some_iff.mp hd).1

/-- Where no document is listed twice, no two places have the same document before them. -/
theorem documentBefore_inj {ds : List String} (hds : ds.Nodup) {i j : Nat} (hi : i < ds.length)
    (hj : j < ds.length) (h : documentBefore ds i = documentBefore ds j) : i = j := by
  have hsome (m : Nat) (hm : m < ds.length) : ds[m - 1]? = some ds[m - 1] :=
    List.getElem?_eq_getElem _
  unfold documentBefore at h
  split at h <;> split at h
  · omega
  · rw [hsome j hj] at h
    cases h
  · rw [hsome i hi] at h
    cases h
  · have hsame := (List.getElem?_inj (by omega) hds).mp h
    omega

/-- Among finitely many each of which is followed by another, one comes back to itself. -/
theorem exists_transGen_self {α : Type} {r : α → α → Prop} {s : Set α} (hs : s.Finite)
    (hne : s.Nonempty) (hnext : ∀ a ∈ s, ∃ b ∈ s, r a b) : ∃ a ∈ s, Relation.TransGen r a a := by
  by_contra hno
  have hfinite : Finite s := hs
  let back (a b : s) : Prop := Relation.TransGen r b.1 a.1
  have htrans : IsTrans s back := ⟨fun _ _ _ hab hbc => hbc.trans hab⟩
  have hirrefl : Std.Irrefl back := ⟨fun a ha => hno ⟨a.1, a.2, ha⟩⟩
  have hwf : WellFounded back := Finite.wellFounded_of_trans_of_irrefl back
  obtain ⟨a, ha⟩ := hne
  obtain ⟨m, _, hm⟩ := hwf.has_min Set.univ ⟨⟨a, ha⟩, trivial⟩
  obtain ⟨b, hb, hmb⟩ := hnext m.1 m.2
  exact hm ⟨b, hb⟩ trivial (.single hmb)

namespace Hub

def Succeeds (h : Hub) (k k' : Key) : Prop :=
  ∃ d p, h.documents.get? k = some d ∧ d.predecessor = some p ∧ Uri.key p = .ok k'

namespace LinkedLast

variable {h : Hub} {ds : List String}

/-- A document follows the one before a place of its own just when that place is the last one. -/
theorem predecessor_iff (hl : h.LinkedLast ds) (hds : ds.Nodup) {i : Nat} {k : Key} {d : Document}
    (hi : NamedAt ds i k) (hd : h.documents.get? k = some d) :
    d.predecessor = documentBefore ds i ↔ ∀ j, NamedAt ds j k → j ≤ i := by
  obtain ⟨j, hj, hp, hlast⟩ := hl i k d hi hd
  rw [hp]
  constructor
  · intro he
    obtain rfl := documentBefore_inj hds hj.lt_length hi.lt_length he
    exact hlast
  · intro hi'
    rw [Nat.le_antisymm (hlast i hi) (hi' j hj)]

/-- What an open document follows is named right before a place of that document. -/
theorem named_before (hl : h.LinkedLast ds) {i : Nat} {k k' : Key} (hi : NamedAt ds i k)
    (hs : h.Succeeds k k') : ∃ j, NamedAt ds j k' ∧ NamedAt ds (j + 1) k := by
  obtain ⟨d, p, hd, hp, hk'⟩ := hs
  obtain ⟨j, hj, hbefore, _⟩ := hl i k d hi hd
  rw [hp, documentBefore] at hbefore
  split at hbefore
  · cases hbefore
  · obtain ⟨j, rfl⟩ := Nat.exists_eq_succ_of_ne_zero ‹_›
    exact ⟨j, ⟨p, hbefore.symm, hk'⟩, hj⟩

/-- Without repetition, what comes before in the chain comes before in the list. -/
theorem named_of_transGen (hl : h.LinkedLast ds)
    (hone : ∀ k i j, (h.documents.get? k).isSome → NamedAt ds i k → NamedAt ds j k → i = j)
    {i : Nat} {k k' : Key}
    (hi : NamedAt ds i k) (ht : Relation.TransGen h.Succeeds k k') : ∃ j < i, NamedAt ds j k' := by
  have hstep {i : Nat} {k k' : Key} (hi : NamedAt ds i k) (hs : h.Succeeds k k') : ∃ j < i,
      NamedAt ds j k' := by
    obtain ⟨j, hj, hself⟩ := hl.named_before hi hs
    obtain ⟨d, _, hd, _⟩ := hs
    obtain rfl := hone k i (j + 1) (by rw [hd]; rfl) hi hself
    exact ⟨j, Nat.lt_succ_self j, hj⟩
  induction ht with
  | single hs => exact hstep hi hs
  | tail _ hs ih =>
    obtain ⟨j, hj, hnamed⟩ := ih
    obtain ⟨m, hm, hnamed⟩ := hstep hnamed hs
    exact ⟨m, hm.trans hj, hnamed⟩

/-- Without repetition no document comes before itself. -/
theorem not_transGen_self (hl : h.LinkedLast ds)
    (hone : ∀ k i j, (h.documents.get? k).isSome → NamedAt ds i k → NamedAt ds j k → i = j)
    {i : Nat} {k : Key} (hi : NamedAt ds i k) : ¬ Relation.TransGen h.Succeeds k k := by
  intro ht
  obtain ⟨j, hj, hnamed⟩ := hl.named_of_transGen hone hi ht
  obtain ⟨k', ⟨d, _, hd, _⟩, _⟩ := Relation.TransGen.head'_iff.mp ht
  have hsame := hone k i j (by rw [hd]; rfl) hi hnamed
  omega

/-- With a repetition in a list of open documents, some document comes before itself. -/
theorem exists_transGen_self (hl : h.LinkedLast ds)
    (hkeys : ∀ d ∈ ds, ∃ k, Uri.key d = .ok k ∧ (h.documents.get? k).isSome) {i j : Nat} {k : Key}
    (hij : i < j) (hi : NamedAt ds i k) (hj : NamedAt ds j k) :
    ∃ m k', NamedAt ds m k' ∧ Relation.TransGen h.Succeeds k' k' := by
  -- from a place behind `i` the chain never gets in front of it, since what is at `i` is linked
  -- from a later place
  let behind : Set Key := { k' | ∃ m, i < m ∧ NamedAt ds m k' }
  have hfinite : behind.Finite := by
    refine (ds.filterMap fun d => (Uri.key d).toOption).finite_toSet.subset ?_
    rintro k' ⟨m, _, d, hd, hk'⟩
    exact List.mem_filterMap.mpr ⟨d, List.mem_of_getElem? hd, by rw [hk']; rfl⟩
  have hnext : ∀ k' ∈ behind, ∃ k₂ ∈ behind, h.Succeeds k' k₂ := by
    rintro k' ⟨m, him, hm⟩
    obtain ⟨d, hd, hk'⟩ := hm
    obtain ⟨k'', hk'', hopen⟩ := hkeys d (List.mem_of_getElem? hd)
    obtain rfl := Except.ok.inj (hk''.symm.trans hk')
    obtain ⟨doc, hdoc⟩ := Option.isSome_iff_exists.mp hopen
    obtain ⟨l, hnamed, hp, hlast⟩ := hl m k'' doc ⟨d, hd, hk'⟩ hdoc
    have hml : m ≤ l := hlast m ⟨d, hd, hk'⟩
    have hlt := hnamed.lt_length
    obtain ⟨p, hprevious⟩ : ∃ p, ds[l - 1]? = some p := ⟨_, List.getElem?_eq_getElem (by omega)⟩
    obtain ⟨k₂, hk₂, _⟩ := hkeys p (List.mem_of_getElem? hprevious)
    have hbefore : documentBefore ds l = some p := by
      rw [documentBefore, if_neg (by omega), hprevious]
    refine ⟨k₂, ?_, doc, p, hdoc, hp.trans hbefore, hk₂⟩
    by_cases hli : l - 1 = i
    · obtain ⟨e, he, hek⟩ := hi
      rw [hli, he] at hprevious
      obtain rfl := Option.some.inj hprevious
      obtain rfl := Except.ok.inj (hek.symm.trans hk₂)
      exact ⟨j, hij, hj⟩
    · exact ⟨l - 1, by omega, p, hprevious, hk₂⟩
  obtain ⟨k', ⟨m, _, hm⟩, ht⟩ := NotebookHub.exists_transGen_self hfinite ⟨k, j, hij, hj⟩ hnext
  exact ⟨m, k', hm, ht⟩

end LinkedLast

/-- Every document of a list that was linked has a key. -/
theorem key_of_linked {ds : List String} {links : List Link}
    (hpairs : links.map Link.pair = chainLinks ds)
    (hsound : ∀ l ∈ links, l.cell.Sound) : ∀ d ∈ ds, ∃ k, Uri.key d = .ok k := by
  intro d hd
  obtain ⟨i, hi⟩ := List.mem_iff_getElem?.mp hd
  have hlink : (d, documentBefore ds i) ∈ chainLinks ds :=
    List.mem_of_getElem? (getElem?_chainLinks.mpr ⟨hi, rfl⟩)
  rw [← hpairs] at hlink
  obtain ⟨l, hl, hpair⟩ := List.mem_map.mp hlink
  obtain rfl : l.cell.uri = d := congrArg Prod.fst hpair
  exact ⟨l.cell.key, (hsound l hl).key⟩

/-- A pass is staged just when the notebook is open, the token is current, and no document is listed
twice in one spelling. Then a document follows the one before a place of its own just when it is not
listed again after that place. Without an open document that is listed again nothing comes back to
itself in the chain; with one, and all documents open, something does. -/
theorem ordered_unless_respelled {h g : Hub} {uri : String} {token : Token} {k : Key}
    {r : Option (List Link)}
    (hk : Uri.key uri = .ok k) (hrun : (stage uri token).on h = (g, .ok r)) :
    (r.isSome ↔ ∃ ds, h.cellsAt k = some ds ∧ h.passes.isCurrent token = true ∧ ds.Nodup) ∧
    (r.isSome → ∃ ds, g.cellsAt k = some ds ∧
      (∀ i c d, NamedAt ds i c → g.documents.get? c = some d →
        (d.predecessor = documentBefore ds i ↔ ∀ j, NamedAt ds j c → j ≤ i)) ∧
      ((∀ c i j, (g.documents.get? c).isSome → NamedAt ds i c → NamedAt ds j c → i = j) →
        ∀ i c, NamedAt ds i c → ¬ Relation.TransGen g.Succeeds c c) ∧
      ((∀ i c, NamedAt ds i c → (g.documents.get? c).isSome) →
        ∀ i j c, i < j → NamedAt ds i c → NamedAt ds j c →
          ∃ m c', NamedAt ds m c' ∧ Relation.TransGen g.Succeeds c' c')) := by
  obtain ⟨hstages, hnone⟩ := stage_spec hk hrun
  cases r with
  | none =>
    refine ⟨⟨nofun, ?_⟩, nofun⟩
    rintro ⟨ds, hds, hc, hnodup⟩
    exact absurd hnodup (hnone rfl ds hds hc)
  | some links =>
    change Stages k (some token) h g [_] at hstages
    cases hstages with
    | pass _ hcurrent hstaged hbooks =>
      obtain ⟨ds, hds, hnodup, hpairs, hsound⟩ := hstaged
      have hlast : g.LinkedLast ds := hbooks ▸ linkedLast_linkAll hpairs hsound
      have hcells : g.cellsAt k = some ds := by rw [hbooks]; exact hds
      refine ⟨⟨fun _ => ⟨ds, hds, hcurrent, hnodup⟩, fun _ => rfl⟩,
        fun _ => ⟨ds, hcells, ?_, ?_, ?_⟩⟩
      · intro i c d hi hd
        exact hlast.predecessor_iff hnodup hi hd
      · intro hone i c hi
        exact hlast.not_transGen_self hone hi
      · intro hopen i j c hij hi hj
        refine hlast.exists_transGen_self (fun d hd => ?_) hij hi hj
        obtain ⟨c', hc'⟩ := key_of_linked hpairs hsound d hd
        obtain ⟨m, hm⟩ := List.mem_iff_getElem?.mp hd
        exact ⟨c', hc', hopen m c' ⟨d, hm, hc'⟩⟩

/-- A notebook whose last cell is its first under another spelling. -/
def respelled : Hub :=
  ((start {}).handleAll
    [.openNotebook ⟨"nb:1", "t", 1, none,
        [⟨.code, "file:///a", none, none⟩, ⟨.code, "c:b", none, none⟩,
          ⟨.code, "file:///%61", none, none⟩]⟩
      [⟨"file:///a", .unnamed, 1, "a"⟩, ⟨"c:b", .unnamed, 1, "b"⟩]]).toOption.getD {}

/-- Its pass is staged, its first cell does not lead the chain, and the chain runs in a circle. -/
theorem ordered_unless_respelled_respelled :
    ∃ g links, (stage "nb:1" ⟨⟨"nb:1"⟩, 1⟩).on respelled = (g, .ok (some links)) ∧
      (∃ d, g.documents.get? ⟨"file:///a"⟩ = some d ∧ d.predecessor ≠ none) ∧
      ∃ c, Relation.TransGen g.Succeeds c c := by
  have hkey : Uri.key "nb:1" = .ok ⟨"nb:1"⟩ := by decide +kernel
  have ha : Uri.key "file:///a" = .ok ⟨"file:///a"⟩ := by decide +kernel
  have hb : Uri.key "c:b" = .ok ⟨"c:b"⟩ := by decide +kernel
  have hagain : Uri.key "file:///%61" = .ok ⟨"file:///a"⟩ := by decide +kernel
  have hstaged : (((stage "nb:1" ⟨⟨"nb:1"⟩, 1⟩).on respelled).2.toOption.join).isSome = true := by
    decide +kernel
  obtain ⟨links, hlinks⟩ := Option.isSome_iff_exists.mp hstaged
  rw [Option.join_eq_some_iff] at hlinks
  generalize hrun : (stage "nb:1" ⟨⟨"nb:1"⟩, 1⟩).on respelled = run at hlinks
  obtain ⟨g, e | r⟩ := run
  · cases hlinks
  · obtain rfl : r = some links := Option.some.inj hlinks
    have hg : ((stage "nb:1" ⟨⟨"nb:1"⟩, 1⟩).on respelled).1 = g := congrArg Prod.fst hrun
    obtain ⟨ds, hds, hplaces, _, hcircle⟩ := (ordered_unless_respelled hkey hrun).2 rfl
    have hcells : g.cellsAt ⟨"nb:1"⟩ = some ["file:///a", "c:b", "file:///%61"] := by
      rw [← hg]
      decide +kernel
    obtain rfl := Option.some.inj (hcells.symm.trans hds)
    have hopen : (g.documents.get? ⟨"file:///a"⟩).isSome ∧ (g.documents.get? ⟨"c:b"⟩).isSome := by
      rw [← hg]
      decide +kernel
    have hnamed : ∀ i c, NamedAt ["file:///a", "c:b", "file:///%61"] i c →
        (g.documents.get? c).isSome := by
      intro i c hi
      have hlt := hi.lt_length
      obtain ⟨d, hd, hc⟩ := hi
      match i, hlt with
      | 0, _ => exact Except.ok.inj (ha.symm.trans (Option.some.inj hd ▸ hc)) ▸ hopen.1
      | 1, _ => exact Except.ok.inj (hb.symm.trans (Option.some.inj hd ▸ hc)) ▸ hopen.2
      | 2, _ => exact Except.ok.inj (hagain.symm.trans (Option.some.inj hd ▸ hc)) ▸ hopen.1
    obtain ⟨d, hd⟩ := Option.isSome_iff_exists.mp hopen.1
    obtain ⟨_, c, _, hc⟩ := hcircle hnamed 0 2 _ (by decide) ⟨_, rfl, ha⟩ ⟨_, rfl, hagain⟩
    refine ⟨g, links, rfl, ⟨d, hd, fun hnone => ?_⟩, c, hc⟩
    have hfirst := (hplaces 0 _ d ⟨_, rfl, ha⟩ hd).mp hnone 2 ⟨_, rfl, hagain⟩
    omega

end Hub
end NotebookHub
