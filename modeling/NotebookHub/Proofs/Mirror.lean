import NotebookHub.Proofs.OwedContents

namespace NotebookHub

/-- Everybody holds of the documents that they own what `held` says, and nothing of any other. -/
def Roster.Shows (r : Roster) (held : Key → Option Content) : Prop :=
  ∀ post ∈ r.posts, ∀ a : Address, a.Sound →
    post.content a.key = if post.owns a.path = true then held a.key else none

namespace Roster

variable {r : Roster} {held : Key → Option Content}

theorem Shows.deliver (hs : r.Shows held) {m : Message} (hm : m.document.Sound) :
    (r.deliver m).2.Shows fun k => m.amend k (held k) := by
  intro post' hp a ha
  have hown : ∀ post ∈ r.posts, post.owns m.document.path = true →
      post.content m.document.key = held m.document.key := by
    intro post hp ho
    rw [hs post hp m.document hm, if_pos ho]
  obtain ⟨post, hp, howns, hcontent⟩ := content_deliver hown post' hp
  rw [hcontent, howns, hs post hp a ha]
  by_cases hk : m.document.key = a.key
  · have hpath : m.document.path = a.path := hm.path_eq ha hk
    by_cases ho : post.owns a.path = true
    · simp [Message.amend, hk, hpath, ho]
    · simp [hpath, ho]
  · simp [Message.amend, hk]

theorem Shows.foldl (hs : r.Shows held) {ms : List Message} (hm : ∀ m ∈ ms, m.document.Sound) :
    (ms.foldl (fun r m => (r.deliver m).2) r).Shows fun k => ms.foldl
    (Message.amend k) (held k) := by
  induction ms generalizing r held with
  | nil => exact hs
  | cons m ms ih =>
    exact ih (hs.deliver (hm m (by simp))) fun m' hm' => hm m' (List.mem_cons_of_mem m hm')

/-- A workspace holds what it owns. -/
theorem Shows.file (hs : r.Shows held) {w : Workspace} (hw : w ∈ r.all) {a : Address} (ha : a.Sound)
    [Decidable (w ∈ r.owners a.path)] :
    (w.get? a.key).map File.content = if w ∈ r.owners a.path then held a.key else none := by
  rw [← workspaces_posts] at hw
  obtain ⟨post, hp, rfl⟩ := List.mem_map.mp hw
  have hc := hs post hp a ha
  split
  · rename_i ho
    rw [owners_eq] at ho
    obtain ⟨post', hp', hsame⟩ := List.mem_map.mp ho
    obtain ⟨hp', howns⟩ := List.mem_filter.mp hp'
    have hc' := hs post' hp' a ha
    rw [if_pos howns, Post.content, hsame] at hc'
    exact hc'
  · rename_i ho
    have hnot : ¬ post.owns a.path = true := by
      intro howns
      rw [owners_eq] at ho
      exact ho (List.mem_map_of_mem (List.mem_filter.mpr ⟨hp, howns⟩))
    rw [if_neg hnot] at hc
    exact hc

def Blank (r : Roster) : Prop := ∀ w ∈ r.all, w.files = .empty

theorem Blank.shows (hb : r.Blank) : r.Shows fun _ => none := by
  intro post hp a _
  have hw : post.workspace ∈ r.all := by
    rw [← workspaces_posts]
    exact List.mem_map_of_mem hp
  simp [Post.content, Workspace.get?, hb _ hw]

theorem Blank.add (hb : r.Blank) {w : Workspace} (hw : w.files = .empty) : (r.add w).Blank := by
  intro w' hw'
  rcases List.mem_append.mp hw' with hm | hf
  · obtain ⟨k, hk⟩ := Table.mem_values_iff.mp hm
    simp only [Roster.add, Table.get?_insert] at hk
    split at hk
    · obtain rfl := Option.some.inj hk
      exact hw
    · exact hb w' (List.mem_append_left _ (Table.mem_values_iff.mpr ⟨k, hk⟩))
  · exact hb w' (List.mem_append_right _ hf)

def ofFolders (withFallback : Bool) (folders : List (String × Path)) : Roster :=
  folders.foldl (fun r f => r.add ⟨f.1, some f.2, .empty⟩) (.start withFallback)

theorem blank_ofFolders (withFallback : Bool) (folders : List (String × Path)) :
    (ofFolders withFallback folders).Blank := by
  have hstart : (start withFallback).Blank := by
    cases withFallback <;> simp [Blank, all, start, Table.values, Table.empty]
  unfold ofFolders
  revert hstart
  generalize start withFallback = r
  induction folders generalizing r with
  | nil => exact id
  | cons f folders ih => exact fun hb => ih _ (hb.add rfl)

end Roster

namespace Hub

/-- Every workspace holds what the registry has, so far as it owns it. -/
structure Mirrors (h : Hub) : Prop where
  sound : h.documents.Sound
  shows : h.roster.Shows h.documents.content

theorem tellOwners_roster (h : Hub) (m : Message) :
    (h.tellOwners m).1.roster = (h.roster.deliver m).2 := by
  obtain ⟨journal, he⟩ := h.tellOwners_eq m
  rw [he]

/-- The books stay as they are in a delivery, so that what is owed is what is told. -/
theorem messages_congr {h g : Hub} (hs : Speaks h g) (e : Errand) :
    e.messages g = e.messages h := by
  cases e with
  | notice n => simp only [Errand.messages, isGood_congr (h := h) (g := g) (by rw [hs.documents])]
  | publish p => simp only [Errand.messages, hs.passes]

theorem carryOut_roster (h : Hub) (e : Errand) :
    (h.carryOut e).roster = (e.messages h).foldl (fun r m => (r.deliver m).2) h.roster := by
  cases e with
  | notice n =>
    simp only [carryOut, deliver_eq, Errand.messages]
    split
    · simp [tellOwners_roster]
    · rfl
  | publish p =>
    obtain ⟨notebook, token, links, total⟩ := p
    simp only [carryOut, Errand.messages]
    induction links generalizing h with
    | nil => cases h.passes.isCurrent token <;> rfl
    | cons l links ih =>
      unfold publishLinks
      split
      · rename_i hc
        have hc' : (h.tellOwners l.message).1.passes.isCurrent token = true := by
          rw [(h.tellOwners_speaks l.message).passes, hc]
        rw [ih, if_pos hc']
        simp [tellOwners_roster]
      · rfl

theorem foldl_carryOut_roster (h : Hub) (es : List Errand) :
    (es.foldl carryOut h).roster = (h.owed es).foldl (fun r m => (r.deliver m).2) h.roster := by
  induction es generalizing h with
  | nil => rfl
  | cons e es ih =>
    have howed : (h.carryOut e).owed es = h.owed es := by
      simp only [owed, messages_congr (h.carryOut_speaks e)]
    rw [List.foldl_cons, ih, howed, carryOut_roster, ← List.foldl_append]
    rfl

/-- Once all that is owed has been told, workspaces and registry agree. -/
theorem Owes.mirrors {h g : Hub} {es : List Errand} (hm : h.Mirrors) (hr : g.roster = h.roster)
    (ho : Owes h.documents.content g es) : (es.foldl carryOut g).Mirrors := by
  have hs := foldl_carryOut_speaks g es
  have hsound : ∀ m ∈ g.owed es, m.document.Sound := by
    intro m hmem
    obtain ⟨e, he, hmem⟩ := List.mem_flatMap.mp hmem
    exact (ho.addressed e he).of_mem hmem
  have hshows := (hr ▸ hm.shows : g.roster.Shows h.documents.content).foldl hsound
  rw [funext ho.content] at hshows
  refine ⟨hs.documents ▸ ho.sound, ?_⟩
  rw [foldl_carryOut_roster, hs.documents]
  exact hshows

theorem Mirrors.withPasses {h : Hub} (hm : h.Mirrors) (passes : Passes) :
    { h with passes }.Mirrors :=
  ⟨hm.sound, hm.shows⟩

/-- A handled notification was registered, and all that it left was delivered. -/
theorem handle_eq_ok {h g : Hub} {n : Notification} (hrun : h.handle n = (g, none)) :
    (∃ uri, n = .saveNotebook uri ∧ g = h.note (.saveNotebook uri)) ∨
      ∃ k h' es, Uri.key n.uri = .ok k ∧
        (begin n (h.ticket n k).token).on { h with passes := h.passesAt n k } = (h', .ok es) ∧
        g = (es.foldl carryOut h').conclude n (h.ticket n k).lock := by
  unfold handle at hrun
  split at hrun
  · rename_i uri
    cases hrun
    exact .inl ⟨uri, rfl, rfl⟩
  · refine .inr ?_
    cases hk : Uri.key n.uri with
    | error e => simp [takeTicket_on_error hk] at hrun
    | ok k =>
      simp only [takeTicket_on hk] at hrun
      split at hrun
      · cases hrun
      · rename_i h' es hbegin
        rw [deliverAll_eq_foldl] at hrun
        cases hrun
        exact ⟨k, h', es, rfl, hbegin, rfl⟩

/-- A notification that fails as it begins has nothing delivered. -/
theorem handle_of_error {h g : Hub} {n : Notification} {k : Key} {e : Fault}
    (hn : ∀ uri, n ≠ .saveNotebook uri) (hk : Uri.key n.uri = .ok k)
    (hrun : (begin n (h.ticket n k).token).on { h with passes := h.passesAt n k } = (g, .error e)) :
    h.handle n = (g.conclude n (h.ticket n k).lock, some e) := by
  unfold handle
  split
  · exact absurd rfl (hn _)
  · simp only [takeTicket_on hk, hrun]

theorem handle_of_ok {h g : Hub} {n : Notification} {k : Key} {es : List Errand}
    (hn : ∀ uri, n ≠ .saveNotebook uri) (hk : Uri.key n.uri = .ok k)
    (hrun : (begin n (h.ticket n k).token).on { h with passes := h.passesAt n k } = (g, .ok es)) :
    h.handle n = ((es.foldl carryOut g).conclude n (h.ticket n k).lock, none) := by
  unfold handle
  split
  · exact absurd rfl (hn _)
  · simp only [takeTicket_on hk, hrun, deliverAll_eq_foldl]

/-- Notifications handled one after the other, each to its end, up to the first that fails. -/
def handleAll (h : Hub) : List Notification → Except Fault Hub
  | [] => .ok h
  | n :: ns =>
    match h.handle n with
    | (g, none) => g.handleAll ns
    | (_, some e) => .error e

theorem handleAll_cons_eq_ok {h g : Hub} {n : Notification} {ns : List Notification} :
    h.handleAll (n :: ns) = .ok g ↔ ∃ h', h.handle n = (h', none) ∧ h'.handleAll ns = .ok g := by
  rw [handleAll]
  split
  · rename_i h' hn
    simp [hn]
  · rename_i h' e hn
    simp [hn]

/-- What a run ends in, when it does not fail. -/
theorem eq_ok_getD {ε α : Type} {run : Except ε α} (hok : run.toOption.isSome = true) (other : α) :
    run = .ok (run.toOption.getD other) := by
  cases run with
  | error e => cases hok
  | ok x => rfl

theorem handleAll_getD {h : Hub} {ns : List Notification}
    (hok : (h.handleAll ns).toOption.isSome = true)
    (other : Hub) : h.handleAll ns = .ok ((h.handleAll ns).toOption.getD other) :=
  eq_ok_getD hok other

theorem Mirrors.handle {h g : Hub} {n : Notification} (hm : h.Mirrors)
    (hrun : h.handle n = (g, none)) :
    g.Mirrors := by
  rcases handle_eq_ok hrun with ⟨uri, rfl, rfl⟩ | ⟨k, h', es, hk, hbegin, rfl⟩
  · exact ⟨hm.sound, hm.shows⟩
  · have ho := begin_owes hbegin hm.sound
    have hr := registers_of_begin (C := fun _ => True) hbegin fun _ _ => trivial
    rw [conclude_eq]
    exact (Owes.mirrors (hm.withPasses _) hr.roster ho).withPasses _

theorem Mirrors.handleAll {h g : Hub} {ns : List Notification} (hm : h.Mirrors)
    (hrun : h.handleAll ns = .ok g) : g.Mirrors := by
  induction ns generalizing h with
  | nil =>
    cases hrun
    exact hm
  | cons n ns ih =>
    rw [Hub.handleAll] at hrun
    split at hrun
    · rename_i h' he
      exact ih (hm.handle he) hrun
    · cases hrun

def overFolders (settings : Settings) (folders : List (String × Path)) : Hub :=
  { start settings with roster := .ofFolders settings.defaultWorkspace folders }

theorem mirrors_overFolders (settings : Settings) (folders : List (String × Path)) :
    (overFolders settings folders).Mirrors where
  sound k d hd := by simp [overFolders, start, Registry.get?] at hd
  shows := (Roster.blank_ofFolders settings.defaultWorkspace folders).shows

/-- Whatever was handled, a workspace holds a document just when it is open and the workspace is one
of its owners, and holds it as the registry does. -/
theorem workspaces_mirror_registry {settings : Settings} {folders : List (String × Path)}
    {ns : List Notification} {h : Hub} (hrun : (overFolders settings folders).handleAll ns = .ok h)
    {w : Workspace} (hw : w ∈ h.roster.all) {uri : String} {key : Key} {path : Path}
    (hkey : Uri.key uri = .ok key) (hpath : Uri.path uri = .ok path) :
    ((w.get? key).isSome ↔ (h.documents.get? key).isSome ∧ w ∈ h.roster.owners path) ∧
      ∀ f d, w.get? key = some f → h.documents.get? key = some d →
        f.text = d.text ∧ f.version = d.version ∧ f.mode = d.mode ∧
          f.predecessor = d.predecessor := by
  classical
  have hm := (mirrors_overFolders settings folders).handleAll hrun
  obtain ⟨a, ha, rfl⟩ := Address.of_key hkey
  obtain rfl : a.path = path := by
    have hp := (Address.of_eq_ok ha).2.2
    rw [hpath] at hp
    exact (Except.ok.inj hp).symm
  have hfile := hm.shows.file hw (Address.sound_of ha)
  constructor
  · have hsome := congrArg Option.isSome hfile
    by_cases ho : w ∈ h.roster.owners a.path
    · simpa [ho, Registry.content] using hsome
    · simpa [ho] using hsome
  · intro f d hf hd
    by_cases ho : w ∈ h.roster.owners a.path
    · simp only [hf, ho, if_true, Registry.content, hd, Option.map_some, Option.some.injEq] at hfile
      simp only [File.content, Document.content, Content.mk.injEq] at hfile
      exact ⟨hfile.2.2.1, hfile.2.2.2, hfile.1, hfile.2.1⟩
    · simp [hf, ho] at hfile

/-- A folder's document is opened and edited, and a cell is opened with its notebook. -/
def editedFolder : List Notification :=
  [.openDocument ⟨"file:///a/x", .unnamed, 1, "ab"⟩,
    .openNotebook ⟨"nb:1", "t", 1, none, [⟨.code, "c:1", none, none⟩]⟩ [⟨"c:1", .unnamed, 1, ""⟩],
    .changeDocument ⟨"file:///a/x", 2, [.whole "cd"]⟩]

def editedHub : Hub :=
  ((overFolders {} [("a", ⟨.single, ["a"]⟩)]).handleAll editedFolder).toOption.getD {}

theorem workspaces_mirror_registry_editedHub :
    ∃ w ∈ editedHub.roster.all, ∃ f d, w.get? ⟨"file:///a/x"⟩ = some f ∧
      editedHub.documents.get? ⟨"file:///a/x"⟩ = some d ∧ f.text = "cd" ∧
      f.text = d.text ∧ f.version = d.version ∧ f.mode = d.mode ∧
        f.predecessor = d.predecessor := by
  have hrun :
      (overFolders {} [("a", ⟨.single, ["a"]⟩)]).handleAll editedFolder = .ok editedHub := by
    have hok :
        ((overFolders {} [("a", ⟨.single, ["a"]⟩)]).handleAll editedFolder).toOption.isSome =
        true := by
      decide +kernel
    unfold editedHub
    cases hr : (overFolders {} [("a", ⟨.single, ["a"]⟩)]).handleAll editedFolder with
    | error e => simp [hr, Except.toOption] at hok
    | ok h => rfl
  have hfile :
      (((editedHub.roster.find? "a").bind (·.get? ⟨"file:///a/x"⟩)).map File.text) = some "cd" := by
    decide +kernel
  obtain ⟨f, hf, htext⟩ := Option.map_eq_some_iff.mp hfile
  obtain ⟨w, hw, hf⟩ := Option.bind_eq_some_iff.mp hf
  have hmem : w ∈ editedHub.roster.all := List.mem_of_find?_eq_some hw
  have hkey : Uri.key "file:///a/x" = .ok ⟨"file:///a/x"⟩ := by decide +kernel
  have hpath : Uri.path "file:///a/x" = .ok ⟨.single, ["a", "x"]⟩ := by decide +kernel
  obtain ⟨hheld, hsame⟩ := workspaces_mirror_registry hrun hmem hkey hpath
  obtain ⟨d, hd⟩ := Option.isSome_iff_exists.mp (hheld.mp (by rw [hf]; rfl)).1
  exact ⟨w, hmem, f, d, hf, hd, htext, hsame f d hf hd⟩

end Hub
end NotebookHub
