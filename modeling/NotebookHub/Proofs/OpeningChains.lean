import NotebookHub.Proofs.Moves
import NotebookHub.Proofs.Outcomes

namespace NotebookHub

/-- Two lists name the same documents in one order, and all but the last in the same words. -/
def SameOrder (ds es : List String) : Prop :=
  ds.map Uri.key = es.map Uri.key ∧ ds.dropLast = es.dropLast

instance (ds es : List String) : Decidable (SameOrder ds es) := inferInstanceAs (Decidable (_ ∧ _))

section Order

variable {ds es : List String}

theorem mem_chainLinks {p : String × Option String} :
    p ∈ chainLinks ds ↔ ∃ i, ds[i]? = some p.1 ∧ p.2 = documentBefore ds i := by
  rw [List.mem_iff_getElem?]
  exact exists_congr fun _ => getElem?_chainLinks

theorem link_mem {i : Nat} {d : String} (hi : ds[i]? = some d) :
    (d, documentBefore ds i) ∈ chainLinks ds :=
  mem_chainLinks.mpr ⟨i, hi, rfl⟩

theorem exists_link {x : Except Uri.Error Key} (hx : x ∈ ds.map Uri.key) :
    ∃ p ∈ chainLinks ds, Uri.key p.1 = x := by
  obtain ⟨d, hd, rfl⟩ := List.mem_map.mp hx
  obtain ⟨i, hi⟩ := List.mem_iff_getElem?.mp hd
  exact ⟨_, link_mem hi, rfl⟩

theorem SameOrder.before_eq (hs : SameOrder ds es) {i : Nat} (hi : i < ds.length) :
    documentBefore ds i = documentBefore es i := by
  have hlength : ds.length = es.length := by simpa using congrArg List.length hs.1
  cases i with
  | zero => rfl
  | succ i =>
    have hlast := congrArg (·[i]?) hs.2
    have hi' : i < ds.length - 1 := by omega
    simp only [List.getElem?_dropLast, ← hlength, if_pos hi'] at hlast
    exact hlast

/-- What stands at one place of both lists, if every document has the same one before it in both. -/
theorem same_place (hkeys : (ds.map Uri.key).Nodup) (hperm : (es.map Uri.key).Perm (ds.map Uri.key))
    (hsame : ∀ p ∈ chainLinks ds, ∀ q ∈ chainLinks es, Uri.key p.1 = Uri.key q.1 → p.2 = q.2)
    {i : Nat} {e : String} (he : es[i]? = some e) :
    ∃ d, ds[i]? = some d ∧ Uri.key d = Uri.key e ∧ documentBefore ds i = documentBefore es i := by
  -- the document at this place of the second list stands somewhere in the first
  have hsomewhere {i : Nat} {e : String} (he : es[i]? = some e) :
      ∃ j d, ds[j]? = some d ∧ Uri.key d = Uri.key e ∧ documentBefore ds j =
        documentBefore es i := by
    have hmem : Uri.key e ∈ ds.map Uri.key :=
      hperm.mem_iff.mp (List.mem_map_of_mem (List.mem_of_getElem? he))
    obtain ⟨d, hd, hk⟩ := List.mem_map.mp hmem
    obtain ⟨j, hj⟩ := List.mem_iff_getElem?.mp hd
    exact ⟨j, d, hj, hk, hsame _ (link_mem hj) _ (link_mem he) hk⟩
  induction i generalizing e with
  | zero =>
    obtain ⟨j, d, hj, hk, hbefore⟩ := hsomewhere he
    cases j with
    | zero => exact ⟨d, hj, hk, hbefore⟩
    | succ j =>
      have hlt := (List.getElem?_eq_some_iff.mp hj).1
      have hsome : ds[j]? = some ds[j] := List.getElem?_eq_getElem (by omega)
      simp [documentBefore, hsome] at hbefore
  | succ i ih =>
    obtain ⟨j, d, hj, hk, hbefore⟩ := hsomewhere he
    have hlt := (List.getElem?_eq_some_iff.mp he).1
    have hprevious : es[i]? = some es[i] := List.getElem?_eq_getElem (by omega)
    cases j with
    | zero => simp [documentBefore, hprevious] at hbefore
    | succ j =>
      obtain ⟨c, hc, hck, _⟩ := ih hprevious
      have hj' : ds[j]? = some es[i] := by simpa [documentBefore, hprevious] using hbefore
      -- the documents before them are one document, which the first list has once
      have hplace : (ds.map Uri.key)[j]? = (ds.map Uri.key)[i]? := by
        rw [List.getElem?_map, List.getElem?_map, hj', hc, Option.map_some, Option.map_some, hck]
      have hjlt : j < (ds.map Uri.key).length := by
        rw [List.length_map]
        exact (List.getElem?_eq_some_iff.mp hj').1
      obtain rfl : j = i := (List.getElem?_inj hjlt hkeys).mp hplace
      exact ⟨d, hj, hk, hbefore⟩

/-- In two orders of the same documents each has the same one before it just when the orders are the
same. -/
theorem sameOrder_iff (hkeys : (ds.map Uri.key).Nodup)
    (hperm : (es.map Uri.key).Perm (ds.map Uri.key)) :
    SameOrder ds es ↔ ∀ p ∈ chainLinks ds, ∀ q ∈ chainLinks es,
      Uri.key p.1 = Uri.key q.1 → p.2 = q.2 := by
  have hlength : es.length = ds.length := by simpa using hperm.length_eq
  constructor
  · intro hs p hp q hq hk
    obtain ⟨i, hi, hp⟩ := mem_chainLinks.mp hp
    obtain ⟨j, hj, hq⟩ := mem_chainLinks.mp hq
    have hlt := (List.getElem?_eq_some_iff.mp hi).1
    have hplace : (ds.map Uri.key)[i]? = (ds.map Uri.key)[j]? := by
      rw [List.getElem?_map, hi, hs.1, List.getElem?_map, hj, Option.map_some, Option.map_some, hk]
    obtain rfl : i = j := (List.getElem?_inj (by simpa using hlt) hkeys).mp hplace
    rw [hp, hq]
    exact hs.before_eq hlt
  · intro hsame
    have hplace {i : Nat} {e : String} (he : es[i]? = some e) := same_place hkeys hperm hsame he
    constructor
    · apply List.ext_getElem?
      intro i
      cases he : es[i]? with
      | none =>
        have hnone : ds[i]? = none := by
          rw [List.getElem?_eq_none_iff] at he ⊢
          omega
        simp [he, hnone]
      | some e =>
        obtain ⟨d, hd, hk, _⟩ := hplace he
        simp [he, hd, hk]
    · apply List.ext_getElem?
      intro i
      simp only [List.getElem?_dropLast, hlength]
      split
      · -- it stands before the next document
        rename_i hi
        have hnext : es[i + 1]? = some es[i + 1] := List.getElem?_eq_getElem (by omega)
        obtain ⟨_, _, _, hbefore⟩ := hplace hnext
        simpa [documentBefore] using hbefore
      · rfl

end Order

namespace Message

/-- The link of the document under `k` after a message, by what it was where the document was
held. -/
def relink (k : Key) (held : Option (Option String)) (m : Message) : Option (Option String) :=
  if m.document.key = k then
    match m with
    | .opened _ _ _ _ predecessor => some predecessor
    | .closed _ => none
    | .changed .. => held
    | .linked _ predecessor => held.map fun _ => predecessor
  else held

theorem relink_amend {m m' : Message} (ha : m.Alike m') (k : Key) (c : Option Content) :
    (m'.amend k c).map Content.predecessor = m.relink k (c.map Content.predecessor) := by
  have hedit (a : Address) (edits : List Edit) (version : Option Int) (c : Option Content) :
      ((changed a edits version).effect c).map Content.predecessor = c.map Content.predecessor := by
    simp [effect, Function.comp_def]
  rw [ha.view_amend hedit]
  unfold amend relink
  split
  · cases m <;> simp [effect, Function.comp_def]
  · rfl

end Message

namespace Hub

def rechaining (h : Hub) (on : Bool) : Hub :=
  { h with settings := { h.settings with rechainOnOpen := on } }

def chainOf (h : Hub) (notebook : NotebookItem) (items : List TextItem) : List String :=
  if h.settings.rechainOnOpen then notebook.cells.map Cell.document else items.map TextItem.uri

def linksAt (h : Hub) (k : Key) : Option (Option String) × List (Option (Option String)) :=
  (h.predecessorAt k, h.roster.all.map fun w => (w.get? k).map File.predecessor)

/-- The documents of a list are open, each linked to the one before it in the registry and where it
is owned. -/
def Strung (h : Hub) (ds : List String) : Prop :=
  ∀ q ∈ chainLinks ds, ∃ a, Address.of q.1 = .ok a ∧ h.predecessorAt a.key = some q.2 ∧
    ∀ w ∈ h.roster.owners a.path, (w.get? a.key).map File.predecessor = some q.2

section Begin

variable {h g : Hub} {notebook : NotebookItem} {items : List TextItem} {token : Token}
  {es : List Errand} {N : Key}

/-- How a notebook is opened: its texts come first, its cell list is chained then if that is
wanted. -/
theorem begin_open_stages (hN : Uri.key notebook.uri = .ok N)
    (hrun : (begin (.openNotebook notebook items) (some token)).on h = (g, .ok es)) :
    ∃ h₁ h₂ ns left, (registerOpensInOrder none items).on h₁ = (h₂, .ok ns) ∧
      h₂.cellsAt N = some (notebook.cells.map Cell.document) ∧ h₂.settings = h.settings ∧
        h₂.passes = h.passes ∧
      (stageOnOpen notebook.uri (some token)).on h₂ = (g, .ok left) := by
  obtain ⟨h₁, _, hjot, hrun₁⟩ := Act.bind_eq_ok.mp hrun
  obtain ⟨h₂, _, hopen, hrun₂⟩ := Act.bind_eq_ok.mp hrun₁
  obtain ⟨h₃, ns, hopens, hrun₃⟩ := Act.bind_eq_ok.mp hrun₂
  obtain ⟨h₄, left, hstage, hdone⟩ := Act.bind_eq_ok.mp hrun₃
  cases hdone
  let Ready (g : Hub) : Prop := g.settings = h.settings ∧ g.passes = h.passes
  have hready₂ : Ready h₂ := by
    have hkept := openInStore_keeps (P := Ready) (fun _ _ hp => hp) (fun _ _ hp => hp)
      notebook h₁ (by
      cases hjot
      exact ⟨rfl, rfl⟩)
    rwa [hopen] at hkept
  have hready₃ : Ready h₃ ∧ h₃.cellsAt N = some (notebook.cells.map Cell.document) := by
    have hkept := registerOpensInOrder_keeps
      (P := fun g => Ready g ∧ g.cellsAt N = some (notebook.cells.map Cell.document))
        (fun _ _ hp => hp)
      (fun _ _ hp => hp) none items h₂ ⟨hready₂, openInStore_cells hN h₁ h₂ _ trivial hopen⟩
    rwa [hopens] at hkept
  exact ⟨h₂, h₃, ns, left, hopens, hready₃.2, hready₃.1.1, hready₃.1.2, hstage⟩

theorem predecessorAt_of_linked {k : Key} {p : Option String} (ho : h.HasOpen k)
    (hl : h.LinkedAs k p) :
    h.predecessorAt k = some p := by
  obtain ⟨d, hd⟩ := Option.isSome_iff_exists.mp ho
  rw [predecessorAt, hd, Option.map_some, hl d hd]

/-- If it is wanted, the cell list of a notebook is chained whose cells are all different. -/
theorem stageOnOpen_on {left : List Errand} (hN : Uri.key notebook.uri = .ok N)
    (hcurrent : h.passes.isCurrent token = true) {ds : List String} (hds : h.cellsAt N = some ds)
    (hkeys : (ds.map Uri.key).Nodup) (hon : h.settings.rechainOnOpen = true)
    (hrun : (stageOnOpen notebook.uri (some token)).on h = (g, .ok left)) :
    g.Chained ds ∧ ∀ k, h.HasOpen k → g.HasOpen k := by
  obtain ⟨_, _, hget, hrun₁⟩ := Act.bind_eq_ok.mp hrun
  cases hget
  rw [if_pos hon] at hrun₁
  obtain ⟨h₁, r, hstage, hdone⟩ := Act.bind_eq_ok.mp hrun₁
  cases hdone
  obtain ⟨hstages, hnone⟩ := stage_spec hN hstage
  have hkept (k : Key) (hk : h.HasOpen k) : g.HasOpen k := by
    have hopen := stage_keeps_open notebook.uri token h hk
    rwa [hstage] at hopen
  refine ⟨?_, hkept⟩
  cases r with
  | none => exact absurd (List.Nodup.of_map _ hkeys) (hnone rfl ds hds hcurrent)
  | some links =>
    cases hstages with
    | pass _ _ hstaged hbooks =>
      obtain ⟨ds', hds', _, hpairs, hsound⟩ := hstaged
      obtain rfl := Option.some.inj (hds.symm.trans hds')
      rw [hbooks]
      exact chained_linkAll hpairs hsound hkeys

/-- A notebook that is opened leaves its documents open, each linked to the one before it in the
order that the settings say. -/
theorem begin_open_linked (hN : Uri.key notebook.uri = .ok N)
    (hcurrent : h.passes.isCurrent token = true)
    (hkeys : ((notebook.cells.map Cell.document).map Uri.key).Nodup)
    (hperm : ((items.map TextItem.uri).map Uri.key).Perm
    ((notebook.cells.map Cell.document).map Uri.key))
    (hrun : (begin (.openNotebook notebook items) (some token)).on h = (g, .ok es)) :
    ∀ q ∈ chainLinks (h.chainOf notebook items), ∀ k, Uri.key q.1 = .ok k →
      g.predecessorAt k = some q.2 := by
  obtain ⟨h₁, h₂, ns, left, hopens, hcells, hsettings, hpasses, hstage⟩ := begin_open_stages hN hrun
  have hopen (k : Key) (hk : .ok k ∈ (items.map TextItem.uri).map Uri.key) : h₂.HasOpen k := by
    obtain ⟨uri, hu, hk⟩ := List.mem_map.mp hk
    obtain ⟨item, hi, rfl⟩ := List.mem_map.mp hu
    exact registerOpensInOrder_opens none ⟨item, hi, hk⟩ h₁ h₂ ns trivial hopens
  intro q hq k hk
  cases hon : h.settings.rechainOnOpen with
  | false =>
    rw [chainOf, hon] at hq
    have hsame : g = h₂ := by
      obtain ⟨_, _, hget, hrun₁⟩ := Act.bind_eq_ok.mp hstage
      cases hget
      rw [hsettings, hon] at hrun₁
      cases hrun₁
      rfl
    rw [hsame]
    apply predecessorAt_of_linked
    · exact hopen k (hk ▸ List.mem_map_of_mem (mem_of_mem_linksAfter hq))
    · exact registerOpensInOrder_chain (hperm.nodup_iff.mpr hkeys) hopens q hq k hk
  | true =>
    rw [chainOf, hon] at hq
    obtain ⟨hchained, hkept⟩ :=
      stageOnOpen_on hN (hpasses ▸ hcurrent) hcells hkeys (hsettings ▸ hon) hstage
    apply predecessorAt_of_linked
    · exact hkept k
        (hopen k (hperm.mem_iff.mpr (hk ▸ List.mem_map_of_mem (mem_of_mem_linksAfter hq))))
    · exact fun d hd => hchained q hq k d hk hd

/-- The workspaces' links of a document, as they are seen. -/
theorem linksAt_eq (h : Hub) (k : Key) :
    h.linksAt k =
      (h.predecessorAt k, (h.roster.seen (Option.map Content.predecessor) k).map Prod.snd) := by
  simp [linksAt, Roster.seen, ← Roster.workspaces_posts, Post.content,
    Function.comp_def, File.content]

/-- What opening a notebook does to links: its documents are linked in the order that the settings
say, in the registry and where they are owned, and other documents keep theirs. -/
theorem open_links (hf : h.store.Filed) (hs : h.Shelved) (hN : Uri.key notebook.uri = .ok N)
    (hcurrent : h.passes.isCurrent token = true)
    (hkeys : ((notebook.cells.map Cell.document).map Uri.key).Nodup)
    (hperm : ((items.map TextItem.uri).map Uri.key).Perm
    ((notebook.cells.map Cell.document).map Uri.key))
    (hrun : (begin (.openNotebook notebook items) (some token)).on h = (g, .ok es)) :
    (∀ q ∈ chainLinks (h.chainOf notebook items), ∀ k, Uri.key q.1 = .ok k →
      (es.foldl carryOut g).predecessorAt k = some q.2) ∧
    (∀ a : Address, a.Sound → .ok a.key ∈ (items.map TextItem.uri).map Uri.key →
      (es.foldl carryOut g).roster.seen (Option.map Content.predecessor) a.key =
        (h.roster.seen (Option.map Content.predecessor) a.key).map fun s =>
          (s.1, if s.1 a.path = true then (es.foldl carryOut g).predecessorAt a.key else s.2)) ∧
    ∀ a : Address, a.Sound → .ok a.key ∉ (items.map TextItem.uri).map Uri.key →
      (es.foldl carryOut g).linksAt a.key = h.linksAt a.key := by
  have hpredecessor (k : Key) : (es.foldl carryOut g).predecessorAt k = g.predecessorAt k := by
    rw [predecessorAt, (foldl_carryOut_speaks g es).documents, predecessorAt]
  refine ⟨fun q hq k hk => ?_, fun a ha hitem => ?_, fun a ha hother => ?_⟩
  · rw [hpredecessor]
    exact begin_open_linked hN hcurrent hkeys hperm hrun q hq k hk
  · obtain ⟨uri, hu, hk⟩ := List.mem_map.mp hitem
    have hopens : (Notification.openNotebook notebook items).opens a.key = true :=
      List.any_eq_true.mpr ⟨uri, hu, by simpa using hk⟩
    have hmoved := (moved_of_begin hs hrun (k := a.key)).mpr ⟨rfl, .inl hopens⟩
    have hcontent : (g.documents.content a.key).map Content.predecessor =
        g.predecessorAt a.key := by
      simp [predecessorAt, Registry.content, Function.comp_def, Document.content]
    rw [seen_of_moved hs hrun ha (fun _ _ hm c => Message.relink_amend hm a.key c) hmoved,
      hpredecessor, hcontent]
  · have huntouched : ¬ (Notification.openNotebook notebook items).Touches a.key := by
      rintro ⟨uri, hu, hk⟩
      exact hother (hk ▸ List.mem_map_of_mem hu)
    have hunlisted : ¬ g.store.HasCell N a.key := by
      rw [hasCell_of_cellsAt (begin_open_cells hN hrun)]
      rintro ⟨d, hd, hk⟩
      exact hother (hperm.mem_iff.mpr (hk ▸ List.mem_map_of_mem hd))
    have habout : (Notification.openNotebook notebook items).About N := ⟨rfl, hN⟩
    have hr := registers_of_begin (C := fun _ => True) hrun fun _ _ => trivial
    have hdocument : g.documents.get? a.key = h.documents.get? a.key :=
      get?_eq_of_linked (hr.documents _ huntouched) fun p hp =>
        begin_linked_elsewhere hf habout hrun huntouched hunlisted hp
    have hseen := seen_of_quiet hs hrun ha (fun _ _ hm c => Message.relink_amend hm a.key c)
      fun m hm v => by
      -- what is told is of the notebook's documents
      have hnamed := (owed_of_begin hf hs habout hrun m hm).2
      unfold Message.relink
      rw [if_neg]
      intro he
      rw [he] at hnamed
      exact hnamed.elim huntouched hunlisted
    rw [linksAt_eq, linksAt_eq, hseen, hpredecessor, predecessorAt, hdocument, predecessorAt]

end Begin

section Handle

variable {h g : Hub} {notebook : NotebookItem} {items : List TextItem}

/-- The same of a notification that is handled from its arrival. -/
theorem handle_open_links (hf : h.store.Filed) (hs : h.Shelved)
    (hkeys : ((notebook.cells.map Cell.document).map Uri.key).Nodup)
    (hperm : ((items.map TextItem.uri).map Uri.key).Perm
    ((notebook.cells.map Cell.document).map Uri.key))
    (hrun : h.handle (.openNotebook notebook items) = (g, none)) :
    (∀ q ∈ chainLinks (h.chainOf notebook items), ∀ k, Uri.key q.1 = .ok k →
    g.predecessorAt k = some q.2) ∧
    (∀ a : Address, a.Sound → .ok a.key ∈ (items.map TextItem.uri).map Uri.key →
      g.roster.seen (Option.map Content.predecessor) a.key =
        (h.roster.seen (Option.map Content.predecessor) a.key).map fun s =>
          (s.1, if s.1 a.path = true then g.predecessorAt a.key else s.2)) ∧
    ∀ a : Address, a.Sound → .ok a.key ∉ (items.map TextItem.uri).map Uri.key →
      g.linksAt a.key = h.linksAt a.key := by
  rcases handle_eq_ok hrun with ⟨uri, he, _⟩ | ⟨N, g₁, es, hN, hbegin, rfl⟩
  · cases he
  rw [conclude_eq]
  refine open_links (h := { h with passes := h.passesAt (.openNotebook notebook items) N }) hf hs hN
    ?_ hkeys hperm hbegin
  simp [passesAt, Notification.restarts, Passes.supersede, Passes.isCurrent]

/-- The documents of a notebook that is opened stand in the order that the settings say. -/
theorem strung_of_open (hf : h.store.Filed) (hs : h.Shelved)
    (hkeys : ((notebook.cells.map Cell.document).map Uri.key).Nodup)
    (hperm : ((items.map TextItem.uri).map Uri.key).Perm
    ((notebook.cells.map Cell.document).map Uri.key))
    (hrun : h.handle (.openNotebook notebook items) = (g, none)) :
    g.Strung (h.chainOf notebook items) := by
  obtain ⟨hlinked, hseen, _⟩ := handle_open_links hf hs hkeys hperm hrun
  intro q hq
  have hitem : Uri.key q.1 ∈ (items.map TextItem.uri).map Uri.key := by
    have hd := mem_of_mem_linksAfter hq
    unfold chainOf at hd
    split at hd
    · exact hperm.mem_iff.mpr (List.mem_map_of_mem hd)
    · exact List.mem_map_of_mem hd
  obtain ⟨k, hk⟩ : ∃ k, Uri.key q.1 = .ok k := by
    obtain ⟨uri, hu, hk⟩ := List.mem_map.mp hitem
    have hnone : h.fault? (.openNotebook notebook items) = none := by rw [← handle_faults hf, hrun]
    simp only [fault?, reads, Option.or_eq_none_iff, List.findSome?_append,
      List.findSome?_eq_none_iff] at hnone
    rw [← hk]
    exact Uri.fault?_eq_none.mp (hnone.2.2.2 uri hu)
  obtain ⟨a, ha, rfl⟩ := Address.of_key hk
  have hp := hlinked q hq a.key hk
  refine ⟨a, ha, hp, fun w hw => ?_⟩
  rw [Roster.owners_eq] at hw
  obtain ⟨post, hpost, rfl⟩ := List.mem_map.mp hw
  obtain ⟨hpost, howns⟩ := List.mem_filter.mp hpost
  have hmem : (post.owns, (post.content a.key).map Content.predecessor) ∈
      g.roster.seen (Option.map Content.predecessor) a.key := List.mem_map_of_mem hpost
  rw [hseen a (Address.sound_of ha) (hk ▸ hitem)] at hmem
  obtain ⟨s, _, he⟩ := List.mem_map.mp hmem
  obtain ⟨howner, hlink⟩ := Prod.mk.inj he
  rw [howner, if_pos howns, hp] at hlink
  simpa [Post.content, Function.comp_def, File.content] using hlink.symm

/-- Whether a notebook can be opened has nothing to do with the way in which it is chained. -/
theorem handle_rechaining (hf : h.store.Filed) {n : Notification}
    (hok : (h.handle n).2 = none) {on : Bool}
    (hg : g = ((h.rechaining on).handle n).1) : (h.rechaining on).handle n = (g, none) := by
  have hnone : ((h.rechaining on).handle n).2 = none := by
    rw [handle_faults (h := h.rechaining on) hf, ← hok, handle_faults hf]
    rfl
  rw [hg, ← hnone]

end Handle
end Hub

namespace Dispatcher

/-- A notebook is opened after any run, with texts for exactly its cells, which are all different.
Chained over again, its documents stand in the order of the cells, and otherwise in the order in
which the texts come, in the registry and in every workspace that owns them; links of other
documents stay as they are. The two ways leave the same links everywhere just when both orders are
the same and name all documents but the last in the same words. -/
theorem chained_alike_in_order {settings : Settings} {route : Route} {roster : Roster}
    {events : List Event}
    {d : Dispatcher} (hd : d = (fresh settings route roster).run events) {notebook : NotebookItem}
    {items : List TextItem} (hkeys : ((notebook.cells.map Cell.document).map Uri.key).Nodup)
    (hperm : ((items.map TextItem.uri).map Uri.key).Perm
      ((notebook.cells.map Cell.document).map Uri.key))
    (hok : (d.hub.handle (.openNotebook notebook items)).2 = none) {on off : Hub}
    (hon : on = ((d.hub.rechaining true).handle (.openNotebook notebook items)).1)
    (hoff : off = ((d.hub.rechaining false).handle (.openNotebook notebook items)).1) :
    on.Strung (notebook.cells.map Cell.document) ∧ off.Strung (items.map TextItem.uri) ∧
    (∀ uri k, Uri.key uri = .ok k → Uri.key uri ∉ (items.map TextItem.uri).map Uri.key →
      on.linksAt k = d.hub.linksAt k ∧ off.linksAt k = d.hub.linksAt k) ∧
    ((∀ uri k, Uri.key uri = .ok k → on.linksAt k = off.linksAt k) ↔
      SameOrder (notebook.cells.map Cell.document) (items.map TextItem.uri)) := by
  subst hd
  have hf :=
    ((sound_fresh settings route roster).run (orderly_fresh settings route roster) events).filed
  have hs := shelved_run settings route roster events
  generalize ((fresh settings route roster).run events).hub = h at *
  have hon := Hub.handle_rechaining hf hok hon
  have hoff := Hub.handle_rechaining hf hok hoff
  have hstrung := Hub.strung_of_open (h := h.rechaining true) hf hs hkeys hperm hon
  have hstrung' := Hub.strung_of_open (h := h.rechaining false) hf hs hkeys hperm hoff
  obtain ⟨hlinked, hseen, hother⟩ :=
    Hub.handle_open_links (h := h.rechaining true) hf hs hkeys hperm hon
  obtain ⟨hlinked', hseen', hother'⟩ :=
    Hub.handle_open_links (h := h.rechaining false) hf hs hkeys hperm hoff
  have hothers (uri : String) (k : Key) (hk : Uri.key uri = .ok k)
      (hnot : Uri.key uri ∉ (items.map TextItem.uri).map Uri.key) :
      on.linksAt k = h.linksAt k ∧ off.linksAt k = h.linksAt k := by
    obtain ⟨a, ha, rfl⟩ := Address.of_key hk
    rw [hk] at hnot
    exact ⟨hother a (Address.sound_of ha) hnot, hother' a (Address.sound_of ha) hnot⟩
  refine ⟨hstrung, hstrung', hothers, ?_⟩
  rw [sameOrder_iff hkeys hperm]
  constructor
  · intro hsame p hp q hq hkey
    obtain ⟨a, ha, hpa, _⟩ := hstrung p hp
    have hk := (Address.of_eq_ok ha).2.1
    have hq := hlinked' q hq a.key (hkey ▸ hk)
    have hlinks := congrArg Prod.fst (hsame p.1 a.key hk)
    simp only [Hub.linksAt, hpa, hq, Option.some.injEq] at hlinks
    exact hlinks
  · intro hsame uri k hk
    by_cases hitem : Uri.key uri ∈ (items.map TextItem.uri).map Uri.key
    · obtain ⟨a, ha, rfl⟩ := Address.of_key hk
      rw [hk] at hitem
      have hpredecessor : on.predecessorAt a.key = off.predecessorAt a.key := by
        obtain ⟨p, hp, hpk⟩ := exists_link (hperm.mem_iff.mp hitem)
        obtain ⟨q, hq, hqk⟩ := exists_link hitem
        rw [hlinked p hp a.key hpk, hlinked' q hq a.key hqk, hsame p hp q hq (hpk.trans hqk.symm)]
      rw [Hub.linksAt_eq, Hub.linksAt_eq, hseen a (Address.sound_of ha) hitem,
        hseen' a (Address.sound_of ha) hitem, hpredecessor]
      rfl
    · obtain ⟨he, he'⟩ := hothers uri k hk hitem
      rw [he, he']

def pair : NotebookItem :=
  ⟨"nb:1", "t", 1, none, [⟨.code, "c:a", none, none⟩, ⟨.code, "c:b", none, none⟩]⟩

def crossed : List TextItem := [⟨"c:b", .unnamed, 1, "b"⟩, ⟨"c:a", .unnamed, 1, "a"⟩]

def crossedHub (on : Bool) : Hub :=
  (((fresh {} .registry (.start true)).hub.rechaining on).handle (.openNotebook pair crossed)).1

/-- The second cell follows the first one only if the cells are chained over again. -/
theorem chained_alike_in_order_crossed :
    (crossedHub true).predecessorAt ⟨"c:b"⟩ = some (some "c:a") ∧
      (crossedHub false).predecessorAt ⟨"c:b"⟩ = some none ∧
      ¬ ∀ uri k, Uri.key uri = .ok k →
        (crossedHub true).linksAt k = (crossedHub false).linksAt k := by
  have hkeys : ((pair.cells.map Cell.document).map Uri.key).Nodup := by decide +kernel
  have hperm :
      ((crossed.map TextItem.uri).map Uri.key).Perm ((pair.cells.map Cell.document).map Uri.key) :=
    .swap _ _ _
  have hok :
      ((fresh {} .registry (.start true)).hub.handle (.openNotebook pair crossed)).2 = none := by
    decide +kernel
  have hrun : fresh {} .registry (.start true) = (fresh {} .registry (.start true)).run [] := rfl
  have hon : crossedHub true = (((fresh {} .registry (.start true)).hub.rechaining true).handle
    (.openNotebook pair crossed)).1 := rfl
  have hoff : crossedHub false = (((fresh {} .registry (.start true)).hub.rechaining false).handle
    (.openNotebook pair crossed)).1 := rfl
  obtain ⟨hon, hoff, _, hsame⟩ := chained_alike_in_order hrun hkeys hperm hok hon hoff
  have hsecond {a : Address} (ha : Address.of "c:b" = .ok a) : a.key = ⟨"c:b"⟩ :=
    Except.ok.inj ((Address.of_eq_ok ha).2.1.symm.trans (by decide +kernel))
  obtain ⟨a, ha, hp, _⟩ := hon ("c:b", some "c:a") (by decide)
  obtain ⟨a', ha', hp', _⟩ := hoff ("c:b", none) (by decide)
  rw [hsecond ha] at hp
  rw [hsecond ha'] at hp'
  refine ⟨hp, hp', ?_⟩
  rw [hsame]
  decide +kernel

end Dispatcher
end NotebookHub
