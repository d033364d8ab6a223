import NotebookHub.Proofs.Aloofness
import NotebookHub.Proofs.Notices

namespace NotebookHub

namespace Hub

/-- Who is told of messages is told of their documents. -/
theorem documents_of_spoken (ms : List Message) (heard : Roster × List Call) :
    ∃ cs, (ms.foldl Roster.speak heard).2 = heard.2 ++ cs ∧
      ∀ c ∈ cs, ∃ w m, c = .told w m ∧ ∃ m' ∈ ms, m.document = m'.document := by
  induction ms generalizing heard with
  | nil => exact ⟨[], by simp, by simp⟩
  | cons m ms ih =>
    obtain ⟨cs, hcs, htold⟩ := ih (Roster.speak heard m)
    refine ⟨(heard.1.deliver m).1.told.map (fun t => .told t.1 t.2.1) ++ cs, ?_, fun c hc => ?_⟩
    · rw [List.foldl_cons, hcs]
      exact List.append_assoc ..
    rcases List.mem_append.mp hc with hc | hc
    · obtain ⟨t, ht, rfl⟩ := List.mem_map.mp hc
      exact ⟨t.1, t.2.1, rfl, m, List.mem_cons_self, heard.1.document_told m t ht⟩
    · obtain ⟨w, m', hc, m'', hm, hd⟩ := htold c hc
      exact ⟨w, m', hc, m'', List.mem_cons_of_mem m hm, hd⟩

section Begin

variable {n : Notification} {token : Option Token} {N k : Key} {h g : Hub} {es : List Errand}

theorem hasCell_of_cellsAt {ds : List String} (hds : g.cellsAt N = some ds) :
    g.store.HasCell N k ↔ ∃ d ∈ ds, Uri.key d = .ok k := by
  obtain ⟨notebook, hn, rfl⟩ := Option.map_eq_some_iff.mp hds
  exact Store.hasCell_iff hn

/-- Nobody is told anything while a notebook's changes are registered. -/
theorem begin_untold (token : Option Token) (hn : n.isNotebook = true) (h : Hub) :
    ((begin n token).on h).1.calls = h.calls := by
  have hreindex (key : Key) : Act.Preserves (fun g => g.calls = h.calls) (reindex key) :=
    reindex_keeps (fun _ _ hs => hs) key
  have hopen :=
    registerOpen_keeps (P := fun g => g.calls = h.calls) (fun _ _ hs => hs) fun _ _ hs => hs
  have hclose :=
    registerClose_keeps (P := fun g => g.calls = h.calls) (fun _ _ hs => hs) fun _ _ hs => hs
  have hstage := stage_keeps (P := fun g => g.calls = h.calls) (fun _ _ hs => hs) fun _ _ hs => hs
  refine begin_preserves (P := fun g => g.calls = h.calls) token (fun _ _ hs => hs)
    (fun hno => by rw [hn] at hno; cases hno)
      (openInStore_keeps (fun _ _ hs => hs) fun _ _ hs => hs)
    (applyVersion_keeps fun _ _ hs => hs) (fun key _ _ => ?_)
    (applyData_keeps (fun _ _ hs => hs) fun _ _ hs => hs) (fun _ _ hs => hs) hopen
    (registerChange_keeps (fun _ _ hs => hs) fun _ _ hs => hs) hclose hstage h rfl
  exact applyStructure_preserves (fun _ _ hs => hs) (fun _ hs => hs) (hreindex key)
    (fun _ _ => hopen _ _)
    (fun _ _ => hclose _) fun _ _ => hstage _ _

/-- The index is changed only where it names the notebook or does so then. -/
theorem begin_claims (token : Option Token) (hn : n.About N) (h : Hub) :
    h.store.Claimed N ((begin n token).on h).1.store.owners := by
  have hclosed (hkind : n.isChange = true ∨ n.isClose = true) (hnone : h.store.get? N = none) :
      h.store.Claimed N ((begin n token).on h).1.store.owners := by
    obtain ⟨notes, he⟩ := begin_of_closed hkind hn.2 hnone token
    rw [he]
    exact (h.store.freed_self N).claimed
  cases n with
  | openNotebook notebook items => exact (beginOpen_leaves items hn.2).owners
  | changeNotebook uri version change =>
    cases hopen : h.store.get? N with
    | none => exact hclosed (.inl rfl) hopen
    | some notebook => exact (beginChange_leaves hn.2 (by simp [hopen])).owners
  | saveNotebook uri => exact (h.store.freed_self N).claimed
  | closeNotebook uri cells =>
    cases hopen : h.store.get? N with
    | none => exact hclosed (.inr rfl) hopen
    | some notebook => exact (beginClose_leaves cells hn.2 (by simp [hopen])).owners
  | openDocument | changeDocument | closeDocument => cases hn.1

/-- What a notification does not name and its notebook does not list afterwards stays linked as it
is. -/
theorem begin_linked_elsewhere (hf : h.store.Filed) (hn : n.About N)
    (hrun : (begin n token).on h = (g, .ok es)) (hk : ¬ n.Touches k) (hcell : ¬ g.store.HasCell N k)
    {p : Option String} (hp : h.LinkedAs k p) : g.LinkedAs k p := by
  cases n with
  | openNotebook notebook items =>
    obtain ⟨h₁, h₂, ns, ps, hdocuments, hopens, hlisted, hstages⟩ := begin_open_spec hn.2 hrun
    have hunlisted : ∀ d ∈ notebook.cells.map Cell.document, Uri.key d ≠ .ok k := by
      rw [hasCell_of_cellsAt ((hstages.cellsAt N).trans hlisted)] at hcell
      exact fun d hd he => hcell ⟨d, hd, he⟩
    have hitems : ∀ item ∈ items, Uri.key item.uri ≠ .ok k :=
      fun item hi he => hk ⟨item.uri, List.mem_map_of_mem hi, he⟩
    have hp₁ : h₁.LinkedAs k p := by
      unfold LinkedAs
      rwa [hdocuments]
    have hp₂ := registerOpensInOrder_linked none hitems h₁ h₂ ns hp₁ hopens
    unfold LinkedAs
    rwa [hstages.elsewhere hlisted hunlisted]
  | changeNotebook uri version change =>
    cases hopen : h.store.get? N with
    | none =>
      rcases beginChange_spec hn.2 hrun with ⟨_, _, hsame⟩ | ⟨_, _, _, _, _, hsome, _⟩
      · exact hp.congr (hsame.predecessors k)
      · simp [hopen] at hsome
    | some notebook =>
      have hkey : Uri.key uri = .ok N := hn.2
      obtain ⟨ds, hds, hlinked⟩ := begin_change_elsewhere hkey hf (by simp [hopen]) hrun
      rw [hasCell_of_cellsAt hds] at hcell
      have hunopened : (Notification.changeNotebook uri version change).opens k = false := by
        rw [Bool.eq_false_iff]
        intro hopens
        obtain ⟨u, hu, hkey⟩ := List.any_eq_true.mp hopens
        refine hk ⟨u, ?_, by simpa using hkey⟩
        cases hs : change.structural with
        | none => simp [Notification.opened, hs] at hu
        | some s =>
          simp only [Notification.opened, hs] at hu
          simp only [Notification.touched, hs]
          exact List.mem_append_left _ (List.mem_append_left _ hu)
      have hg := hlinked k p (fun d hd he => hcell ⟨d, hd, he⟩) hp
      rwa [hunopened] at hg
  | saveNotebook uri =>
    cases hrun
    exact hp
  | closeNotebook uri cells => exact begin_close_linked hrun hp
  | openDocument | changeDocument | closeDocument => cases hn.1

/-- A document is the same if it is the same apart from its link, and its link is the same. -/
theorem get?_eq_of_linked
    (hsame : (g.documents.get? k).map Document.unlinked =
    (h.documents.get? k).map Document.unlinked)
    (hlinked : ∀ p, h.LinkedAs k p → g.LinkedAs k p) : g.documents.get? k = h.documents.get? k := by
  cases hd : h.documents.get? k with
  | none => simpa [hd] using hsame
  | some d =>
    rw [hd] at hsame
    obtain ⟨e, he, hunlinked⟩ := Option.map_eq_some_iff.mp hsame
    have hp : e.predecessor = d.predecessor :=
      hlinked d.predecessor (fun d' hd' => by rw [Option.some.inj (hd.symm.trans hd')]) e he
    rw [he]
    cases d
    cases e
    simp only [Document.unlinked, Document.mk.injEq] at hunlinked hp
    simp [hunlinked, hp]

/-- What is left to be delivered is of documents that the notification names or the notebook
lists. -/
theorem owed_of_begin (hf : h.store.Filed) (hs : h.Shelved) (hn : n.About N)
    (hrun : (begin n token).on h = (g, .ok es)) :
    ∀ m ∈ g.owed es, m.document.Sound ∧
      (n.Touches m.document.key ∨ g.store.HasCell N m.document.key) := by
  intro m hm
  obtain ⟨e, he, hm⟩ := List.mem_flatMap.mp hm
  refine ⟨((begin_owes hrun hs).addressed e he).of_mem hm, ?_⟩
  cases e with
  | notice x =>
    simp only [Errand.messages] at hm
    split at hm
    · obtain rfl := List.mem_singleton.mp hm
      rw [Notice.document_message]
      exact .inl (begin_names hs hrun x (List.mem_filterMap.mpr ⟨_, he, rfl⟩))
    · simp at hm
  | publish pass =>
    simp only [Errand.messages] at hm
    split at hm
    · obtain ⟨l, hl, rfl⟩ := List.mem_map.mp hm
      obtain ⟨N', hn', _, _, ds, hds, _, hpairs, hsound⟩ :=
        begin_passes hrun hf (mem_passesOf.mpr he)
      obtain rfl : N' = N := Except.ok.inj (hn'.2.symm.trans hn.2)
      have hlisted : l.pair ∈ chainLinks ds := hpairs ▸ List.mem_map_of_mem hl
      exact .inr ((hasCell_of_cellsAt hds).mpr
        ⟨l.cell.uri, mem_of_mem_linksAfter hlisted, (hsound l hl).key⟩)
    · simp at hm

end Begin

/-- What a notification about notebook `N` leaves alone as it takes a hub from `h` to `g`. -/
structure Frames (n : Notification) (N : Key) (h g : Hub) : Prop where
  notebooks : ∀ M, M ≠ N → g.store.get? M = h.store.get? M
  index : ∀ k, ¬ h.store.HasCell N k → ¬ g.store.HasCell N k →
    g.store.owners.get? k = h.store.owners.get? k
  documents : ∀ k, ¬ n.Touches k → ¬ g.store.HasCell N k → g.documents.get? k = h.documents.get? k
  /-- Of a cell that is not named only the link may change. -/
  links : ∀ k, ¬ n.Touches k →
    (g.documents.get? k).map Document.unlinked = (h.documents.get? k).map Document.unlinked
  told : ∃ cs, g.calls = h.calls ++ cs ∧ ∀ c ∈ cs, ∃ w m, c = .told w m ∧ m.document.Sound ∧
    (n.Touches m.document.key ∨ g.store.HasCell N m.document.key)

theorem Frames.refl (n : Notification) (N : Key) (h : Hub) : Frames n N h h :=
  ⟨fun _ _ => rfl, fun _ _ _ => rfl, fun _ _ _ => rfl, fun _ _ => rfl, [], by simp, by simp⟩

theorem handle_frames {h g : Hub} {n : Notification} {N : Key} (hf : h.store.Filed)
    (hi : h.store.Indexed)
    (hs : h.Shelved) (hn : n.About N) (hrun : h.handle n = (g, none)) : Frames n N h g := by
  rcases handle_eq_ok hrun with ⟨uri, rfl, rfl⟩ | ⟨k, h', es, hk, hbegin, rfl⟩
  · exact { Frames.refl _ N h with }
  obtain rfl : k = N := Except.ok.inj (hk.symm.trans hn.2)
  -- what follows the registration leaves the books alone, and the passes do not matter
  let ready : Hub := { h with passes := h.passesAt n k }
  have hbooks := foldl_carryOut_speaks h' es
  have hr := registers_of_begin (C := fun _ => True) hbegin fun _ _ => trivial
  have hclaimed := begin_claims (h.ticket n k).token hn ready
  have hindexed := begin_indexes n (h.ticket n k).token ready hi
  have huntold := begin_untold (h.ticket n k).token hn.1 ready
  rw [hbegin] at hclaimed hindexed huntold
  obtain ⟨journal, hheard⟩ := h'.foldl_carryOut_among es
  obtain ⟨cs, hcs, htold⟩ := documents_of_spoken (h'.owed es) (h'.roster, h'.calls)
  rw [conclude_eq]
  constructor
  case notebooks =>
    intro M hM
    dsimp only
    rw [hbooks.store]
    exact hr.store M fun he => hM (Except.ok.inj (he.2.symm.trans hn.2))
  case index =>
    intro j hold hnew
    dsimp only at hnew ⊢
    rw [hbooks.store] at hnew ⊢
    by_contra hne
    rcases hclaimed j hne with ho | ho
    · exact hold (hi j k ho)
    · exact hnew (hindexed j k ho)
  case documents =>
    intro j hj hcell
    dsimp only at hcell ⊢
    rw [hbooks.store] at hcell
    rw [hbooks.documents]
    exact get?_eq_of_linked (hr.documents j hj)
      fun p hp => begin_linked_elsewhere (h := ready) hf hn hbegin hj hcell hp
  case links =>
    intro j hj
    dsimp only
    rw [hbooks.documents]
    exact hr.documents j hj
  case told =>
    dsimp only
    rw [hbooks.store]
    refine ⟨cs, ?_, fun c hc => ?_⟩
    · rw [hheard]
      exact hcs.trans (congrArg (· ++ cs) huntold)
    · obtain ⟨w, m, rfl, m', hm', hd⟩ := htold c hc
      exact ⟨w, m, rfl, hd ▸ owed_of_begin (h := ready) hf hs hn hbegin m' hm'⟩

end Hub

namespace Dispatcher

/-- A notification about notebook `N` that is handled after any run, and does not fail, changes no
other notebook, no index entry but of cells of `N` before or after, no document but those it names
and links of the cells that `N` has then, and tells workspaces of no other document. -/
theorem notebook_notifications_framed {settings : Settings} {route : Route} {roster : Roster}
    {events : List Event} {d : Dispatcher} (hd : d = (fresh settings route roster).run events)
    {n : Notification} {N : Key} (hn : n.About N) {g : Hub} (hrun : d.hub.handle n = (g, none)) :
    Hub.Frames n N d.hub g := by
  subst hd
  have hs := (sound_fresh settings route roster).run (orderly_fresh settings route roster) events
  exact Hub.handle_frames hs.filed (indexed_run settings route roster events)
    (shelved_run settings route roster events) hn hrun

def others : Dispatcher :=
  (fresh { rechainOnOpen := true } .registry (.start true)).run
    [.arrive (.openNotebook ⟨"nb:2", "t", 1, none, [⟨.code, "c:a", none, none⟩]⟩
      [⟨"c:a", .unnamed, 1, "a"⟩]),
      .resume 0, .arrive (.openDocument ⟨"d:x", .unnamed, 1, "x"⟩), .resume 1]

def sharing : Notification :=
  .openNotebook ⟨"nb:1", "t", 1, none, [⟨.code, "c:b", none, none⟩, ⟨.code, "c:a", none, none⟩]⟩
    [⟨"c:b", .unnamed, 1, "b"⟩]

def shared : Hub := (others.hub.handle sharing).1

/-- The shared cell is linked and its index entry taken over; the other notebook and document stay
as they are. -/
theorem notebook_notifications_framed_sharedCell :
    (others.hub.store.get? ⟨"nb:2"⟩).isSome = true ∧
      shared.store.get? ⟨"nb:2"⟩ = others.hub.store.get? ⟨"nb:2"⟩ ∧
      (others.hub.documents.get? ⟨"d:x"⟩).isSome = true ∧
      shared.documents.get? ⟨"d:x"⟩ = others.hub.documents.get? ⟨"d:x"⟩ ∧
      others.hub.store.owners.get? ⟨"c:a"⟩ = some ⟨"nb:2"⟩ ∧ shared.store.owners.get? ⟨"c:a"⟩ =
        some ⟨"nb:1"⟩ ∧
      others.hub.documents.get? ⟨"c:a"⟩ ≠ shared.documents.get? ⟨"c:a"⟩ ∧
      (shared.documents.get? ⟨"c:a"⟩).map Document.unlinked =
        (others.hub.documents.get? ⟨"c:a"⟩).map Document.unlinked ∧
      shared.calls.length = others.hub.calls.length + 3 := by
  have hok : (others.hub.handle sharing).2 = none := by decide +kernel
  have hrun : others.hub.handle sharing = (shared, none) := by rw [shared, ← hok]
  have hframes := notebook_notifications_framed (d := others) rfl
    (show sharing.About ⟨"nb:1"⟩ from ⟨rfl, by decide +kernel⟩) hrun
  have hnames (k : Key) (hk : k ≠ ⟨"c:b"⟩) : ¬ sharing.Touches k := by
    rintro ⟨u, hu, hkey⟩
    obtain rfl := List.mem_singleton.mp hu
    exact hk (Except.ok.inj (hkey.symm.trans (by decide +kernel)))
  have hcell : ¬ shared.store.HasCell ⟨"nb:1"⟩ ⟨"d:x"⟩ := by
    rw [Hub.hasCell_of_cellsAt
      (show shared.cellsAt ⟨"nb:1"⟩ = some ["c:b", "c:a"] by decide +kernel)]
    decide +kernel
  exact ⟨by decide +kernel, hframes.notebooks ⟨"nb:2"⟩ (by decide +kernel), by decide +kernel,
    hframes.documents ⟨"d:x"⟩ (hnames _ (by decide +kernel)) hcell,
      by decide +kernel, by decide +kernel,
    by decide +kernel, hframes.links ⟨"c:a"⟩ (hnames _ (by decide +kernel)), by decide +kernel⟩

end Dispatcher
end NotebookHub
