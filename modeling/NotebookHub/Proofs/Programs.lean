import NotebookHub.Proofs.Chaining
import NotebookHub.Proofs.Walks

namespace NotebookHub

namespace Workspace

variable {w : Workspace}

/-- The files passed from a document back to the head of its chain, each with its key. -/
inductive Trail (w : Workspace) : Option String → List (Key × File) → Prop
  | done : Trail w none []
  | pass {uri : String} {k : Key} {f : File} {es : List (Key × File)} (hk : Uri.key uri = .ok k)
      (hf : w.get? k = some f) (rest : Trail w f.predecessor es) : Trail w (some uri) ((k, f) :: es)

namespace Trail

variable {from? : Option String} {uri : String} {es : List (Key × File)}

/-- From documents under one key there is one trail. -/
theorem unique {u v : Option String} {es fs : List (Key × File)} (ht : w.Trail u es)
    (hs : w.Trail v fs) (huv : u.map Uri.key = v.map Uri.key) : es = fs := by
  induction ht generalizing v fs with
  | done =>
    cases hs with
    | done => rfl
    | pass => cases huv
  | pass hk hf rest ih =>
    cases hs with
    | done => cases huv
    | pass hk' hf' rest' =>
      simp only [Option.map_some, hk, hk', Option.some.injEq, Except.ok.injEq] at huv
      subst huv
      rw [hf] at hf'
      obtain rfl := Option.some.inj hf'
      rw [ih rest' rfl]

theorem get?_of_mem (ht : w.Trail from? es) {e : Key × File} (he : e ∈ es) :
    w.get? e.1 = some e.2 := by
  induction ht with
  | done => cases he
  | pass hk hf rest ih =>
    rcases List.mem_cons.mp he with rfl | he
    · exact hf
    · exact ih he

/-- A trail goes on from each file that it passes. -/
theorem suffix (ht : w.Trail from? es) {k : Key} (hk : k ∈ es.map Prod.fst) :
    ∃ uri fs, Uri.key uri = .ok k ∧ w.Trail (some uri) fs ∧ fs.length ≤ es.length := by
  induction ht with
  | done => cases hk
  | pass hkey hf rest ih =>
    rcases List.mem_cons.mp hk with rfl | hk
    · exact ⟨_, _, hkey, .pass hkey hf rest, Nat.le_refl _⟩
    · obtain ⟨uri, fs, hu, hs, hle⟩ := ih hk
      exact ⟨uri, fs, hu, hs, Nat.le_succ_of_le hle⟩

/-- A trail that comes to an end passes no file twice. -/
theorem nodup (ht : w.Trail from? es) : (es.map Prod.fst).Nodup := by
  induction ht with
  | done => exact .nil
  | @pass uri k f es hk hf rest ih =>
    refine List.nodup_cons.mpr ⟨fun hm => ?_, ih⟩
    obtain ⟨v, fs, hv, hs, hle⟩ := rest.suffix hm
    have hsame := unique (.pass hk hf rest) hs (by simp [hk, hv])
    rw [← hsame, List.length_cons] at hle
    omega

/-- A walk from the same document passes the same files, unless it has passed one of them before. -/
theorem walk (ht : w.Trail from? es) {seen : List Key} (hseen : ∀ e ∈ es, e.1 ∉ seen) :
    w.Walk seen from? es := by
  have hdistinct := ht.nodup
  induction ht generalizing seen with
  | done => exact .done
  | @pass uri k f es hk hf rest ih =>
    rw [List.map_cons, List.nodup_cons] at hdistinct
    refine .pass hk hf (hseen (k, f) (by simp)) (ih (fun e he hm => ?_) hdistinct.2)
    rcases List.mem_cons.mp hm with hsame | hm
    · exact hdistinct.1 (List.mem_map.mpr ⟨e, he, hsame⟩)
    · exact hseen e (List.mem_cons_of_mem _ he) hm

theorem chainOf (ht : w.Trail (some uri) es) : w.chainOf uri = .ok (es.map Prod.snd).reverse :=
  (ht.walk (by simp)).chainOf

theorem chainedSource (ht : w.Trail (some uri) es) (hw : w.Filed) :
    w.chainedSource uri = .ok ("\n".intercalate ((es.map Prod.snd).reverse.map File.text)) :=
  (ht.walk (by simp)).chainedSource hw

end Trail
end Workspace

namespace Roster

/-- What every message about a document leaves true of a workspace, a round leaves true of all. -/
theorem Round.along_keeps {P : Workspace → Prop} {a : Address}
    (hP : ∀ w m, m.document = a → P w → P (w.receive m).1) {p : Path} {round : Round}
    {ps : List Post} (hm : round.message.document = a) (hps : ∀ post ∈ ps, P post.workspace) :
    ∀ post ∈ (along p round ps).2, P post.workspace := by
  induction ps generalizing round with
  | nil => simp [along]
  | cons post ps ih =>
    have hrest : ∀ q ∈ ps, P q.workspace := fun q hq => hps q (List.mem_cons_of_mem post hq)
    intro post' hpost
    unfold along at hpost
    by_cases ho : post.owns p = true
    · simp only [visit, if_pos ho, List.mem_cons] at hpost
      rcases hpost with rfl | hpost
      · exact hP _ _ hm (hps post (by simp))
      · exact ih ((post.workspace.document_receive _).trans hm) hrest post' hpost
    · simp only [visit, if_neg ho, List.mem_cons] at hpost
      rcases hpost with rfl | hpost
      · exact hps post' (by simp)
      · exact ih hm hrest post' hpost

def Filed (r : Roster) : Prop := ∀ post ∈ r.posts, post.workspace.Filed

theorem Filed.deliver {r : Roster} (hr : r.Filed) {m : Message} (hm : m.document.Sound) :
    (r.deliver m).2.Filed := by
  unfold Filed
  rw [posts_deliver]
  exact Round.along_keeps (fun w m' he hw => hw.receive (he ▸ hm)) rfl hr

theorem Filed.foldl {r : Roster} (hr : r.Filed) {ms : List Message}
    (hms : ∀ m ∈ ms, m.document.Sound) :
    (ms.foldl (fun r m => (r.deliver m).2) r).Filed := by
  induction ms generalizing r with
  | nil => exact hr
  | cons m ms ih =>
    exact ih (hr.deliver (hms m (by simp))) fun m' h => hms m' (List.mem_cons_of_mem m h)

theorem Filed.of_mem {r : Roster} (hr : r.Filed) {w : Workspace} (hw : w ∈ r.all) : w.Filed := by
  rw [← workspaces_posts] at hw
  obtain ⟨post, hp, rfl⟩ := List.mem_map.mp hw
  exact hr post hp

theorem Blank.filed {r : Roster} (hb : r.Blank) : r.Filed := by
  intro post hp k f hf
  have hw : post.workspace ∈ r.all := by
    rw [← workspaces_posts]
    exact List.mem_map_of_mem hp
  simp [Workspace.get?, hb _ hw] at hf

end Roster

namespace Hub

/-- Everything is filed under its own key, and the workspaces hold what the registry has. -/
structure InOrder (h : Hub) : Prop extends Mirrors h where
  store : h.store.Filed
  files : h.roster.Filed

theorem inOrder_blank (settings : Settings) {roster : Roster} (hr : roster.Blank) :
    InOrder { settings, roster } where
  sound k d hd := by simp [Registry.get?] at hd
  shows := hr.shows
  store k n hn := by simp [Store.get?] at hn
  files := hr.filed

/-- Handling a notification leaves every notebook filed under its own key. -/
theorem handle_filed {h g : Hub} {n : Notification} (hf : h.store.Filed)
    (hrun : h.handle n = (g, none)) :
    g.store.Filed := by
  rcases handle_eq_ok hrun with ⟨uri, rfl, rfl⟩ | ⟨k, h', es, _, hbegin, rfl⟩
  · exact hf
  · rw [conclude_eq]
    dsimp only
    rw [(foldl_carryOut_speaks h' es).store]
    exact (registers_of_begin (C := fun _ => True) hbegin fun _ _ => trivial).filed hf

theorem InOrder.handle {h g : Hub} {n : Notification} (ho : h.InOrder)
    (hrun : h.handle n = (g, none)) :
    g.InOrder := by
  refine ⟨ho.toMirrors.handle hrun, handle_filed ho.store hrun, ?_⟩
  rcases handle_eq_ok hrun with ⟨uri, rfl, rfl⟩ | ⟨k, h', es, hk, hbegin, rfl⟩
  · exact ho.files
  · have howes := begin_owes hbegin ho.sound
    have hr := registers_of_begin (C := fun _ => True) hbegin fun _ _ => trivial
    have hsound : ∀ m ∈ h'.owed es, m.document.Sound := by
      intro m hm
      obtain ⟨e, he, hm⟩ := List.mem_flatMap.mp hm
      exact (howes.addressed e he).of_mem hm
    rw [conclude_eq]
    dsimp only
    rw [foldl_carryOut_roster, hr.roster]
    exact ho.files.foldl hsound

theorem InOrder.handleAll {h g : Hub} {ns : List Notification} (ho : h.InOrder)
    (hrun : h.handleAll ns = .ok g) : g.InOrder := by
  induction ns generalizing h with
  | nil =>
    cases hrun
    exact ho
  | cons n ns ih =>
    obtain ⟨h', hn, hrun⟩ := handleAll_cons_eq_ok.mp hrun
    exact ih (ho.handle hn) hrun

/-- A run whose last notification is `n`. -/
theorem handleAll_last {h g : Hub} {ns : List Notification} {n : Notification}
    (hrun : h.handleAll (ns ++ [n]) = .ok g) :
    ∃ h', h.handleAll ns = .ok h' ∧ h'.handle n = (g, none) := by
  induction ns generalizing h with
  | nil =>
    obtain ⟨h', hn, hrest⟩ := handleAll_cons_eq_ok.mp hrun
    cases hrest
    exact ⟨h, rfl, hn⟩
  | cons m ns ih =>
    obtain ⟨h', hm, hrest⟩ := handleAll_cons_eq_ok.mp hrun
    obtain ⟨h₁, hns, hn⟩ := ih hrest
    exact ⟨h₁, handleAll_cons_eq_ok.mpr ⟨h', hm, hns⟩, hn⟩

/-- Handled on its own, a structural change chains the cells that it leaves. -/
theorem handle_structural {h g : Hub} {uri : String} {version : Int}
    {change : NotebookChange} {key : Key}
    (hf : h.store.Filed) (hrun : h.handle (.changeNotebook uri version change) = (g, none))
    (hs : change.structural.isSome = true) (hk : Uri.key uri = .ok key) {ds : List String}
    (hds : g.cellsAt key = some ds) (hkeys : (ds.map Uri.key).Nodup) : g.Chained ds := by
  rcases handle_eq_ok hrun with ⟨_, he, _⟩ | ⟨k, h', es, hk', hbegin, rfl⟩
  · cases he
  · obtain rfl : k = key := Except.ok.inj (hk'.symm.trans hk)
    have hchains := (foldl_carryOut_speaks h' es).chains
    rw [conclude_eq] at hds ⊢
    have hds' : h'.cellsAt k = some ds := (hchains.cells k).symm.trans hds
    have hticket : (h.ticket (.changeNotebook uri version change) k).token =
        some (h.passes.supersede k).2 := by
      simp [ticket, Notification.restarts, hs]
    have hcurrent : (h.passesAt (.changeNotebook uri version change) k).isCurrent
        (h.passes.supersede k).2 = true := by
      simp [passesAt, Notification.restarts, hs, Passes.supersede, Passes.isCurrent]
    rw [hticket] at hbegin
    obtain ⟨_, _, _, _, _, hchained⟩ :=
      (begin_structural
        (h := { h with passes := h.passesAt (.changeNotebook uri version change) k })
        hk hf hs hbegin hds' hkeys).1 hcurrent
    exact hchained.congr fun _ _ k _ => hchains.predecessors k

def textAt (h : Hub) (uri : String) : Option String :=
  (Uri.key uri).toOption.bind fun k => (h.documents.get? k).map Document.text

/-- An owner has an open document as the registry has it. -/
theorem Mirrors.file {h : Hub} (hm : h.Mirrors) {w : Workspace} (hw : w ∈ h.roster.all)
    {uri : String}
    {k : Key} (hk : Uri.key uri = .ok k) (howns : ∀ p, Uri.path uri = .ok p → w ∈ h.roster.owners p)
    {d : Document} (hd : h.documents.get? k = some d) :
    ∃ f, w.get? k = some f ∧ f.text = d.text ∧ f.predecessor = d.predecessor := by
  classical
  obtain ⟨a, ha, rfl⟩ := Address.of_key hk
  have hfile := hm.shows.file hw (Address.sound_of ha)
  rw [if_pos (howns _ (Address.of_eq_ok ha).2.2), Registry.content, hd, Option.map_some] at hfile
  obtain ⟨f, hf, hcontent⟩ := Option.map_eq_some_iff.mp hfile
  simp only [File.content, Document.content, Content.mk.injEq] at hcontent
  exact ⟨f, hf, hcontent.2.2.1, hcontent.2.1⟩

/-- Whoever owns chained cells that are all open finds the way from each back to the first. -/
theorem Mirrors.trail {h : Hub} (hm : h.Mirrors) {ds : List String} (hc : h.Chained ds)
    (hopen : ∀ d ∈ ds, ∃ k, Uri.key d = .ok k ∧ (h.documents.get? k).isSome) {w : Workspace}
    (hw : w ∈ h.roster.all) (howns : ∀ d ∈ ds, ∀ p, Uri.path d = .ok p → w ∈ h.roster.owners p)
    {i : Nat} {d : String} (hd : ds[i]? = some d) :
    ∃ es, w.Trail (some d) es ∧
      es.reverse.map (fun e => Except.ok e.1) = (ds.take (i + 1)).map Uri.key ∧
      es.reverse.map (fun e => some e.2.text) = (ds.take (i + 1)).map h.textAt := by
  induction i generalizing d with
  | zero =>
    have hmem := List.mem_of_getElem? hd
    obtain ⟨k, hk, hsome⟩ := hopen d hmem
    obtain ⟨doc, hdoc⟩ := Option.isSome_iff_exists.mp hsome
    obtain ⟨f, hf, htext, hpred⟩ := hm.file hw hk (howns d hmem) hdoc
    have hlink : (d, none) ∈ chainLinks ds :=
      List.mem_of_getElem? (getElem?_chainLinks.mpr ⟨hd, rfl⟩)
    have hnone : f.predecessor = none := hpred.trans (hc _ hlink k doc hk hdoc)
    have htake : ds.take 1 = [d] := by rw [List.take_one, List.head?_eq_getElem?, hd]; rfl
    refine ⟨[(k, f)], .pass hk hf (hnone ▸ .done), ?_, ?_⟩
    · simp [htake, hk]
    · simp [htake, textAt, hk, hdoc, htext, Except.toOption]
  | succ i ih =>
    have hmem := List.mem_of_getElem? hd
    obtain ⟨k, hk, hsome⟩ := hopen d hmem
    obtain ⟨doc, hdoc⟩ := Option.isSome_iff_exists.mp hsome
    obtain ⟨f, hf, htext, hpred⟩ := hm.file hw hk (howns d hmem) hdoc
    obtain ⟨p, hp⟩ : ∃ p, ds[i]? = some p := by
      have hlt := (List.getElem?_eq_some_iff.mp hd).1
      exact ⟨_, List.getElem?_eq_getElem (Nat.lt_of_succ_lt hlt)⟩
    have hlink : (d, some p) ∈ chainLinks ds :=
      List.mem_of_getElem? (getElem?_chainLinks.mpr ⟨hd, by simp [hp]⟩)
    have hbefore : f.predecessor = some p := hpred.trans (hc _ hlink k doc hk hdoc)
    have htake : ds.take (i + 1 + 1) = ds.take (i + 1) ++ [d] := by rw [List.take_add_one, hd]; rfl
    obtain ⟨es, ht, hkeys, htexts⟩ := ih hp
    refine ⟨(k, f) :: es, .pass hk hf (hbefore ▸ ht), ?_, ?_⟩
    · simp [htake, ← hkeys, hk]
    · simp [htake, ← htexts, textAt, hk, hdoc, htext, Except.toOption]

/-- After a run that ends with a structural change of a notebook whose cells are then all open, no
two of them the same, a workspace that owns them all reads each cell as one program with the cells
before it. -/
theorem notebook_reads_as_program {settings : Settings} {roster : Roster} (hblank : roster.Blank)
    {ns : List Notification} {uri : String} {version : Int} {change : NotebookChange} {h : Hub}
    (hrun : Hub.handleAll { settings, roster } (ns ++ [.changeNotebook uri version change]) = .ok h)
    (hs : change.structural.isSome = true) {key : Key} (hk : Uri.key uri = .ok key)
    {notebook : Notebook}
    (hn : h.store.get? key = some notebook) (hkeys : (notebook.documents.map Uri.key).Nodup)
    (hopen : ∀ d ∈ notebook.documents, ∃ k, Uri.key d = .ok k ∧ (h.documents.get? k).isSome)
    {w : Workspace} (hw : w ∈ h.roster.all)
    (howns : ∀ d ∈ notebook.documents, ∀ p, Uri.path d = .ok p → w ∈ h.roster.owners p)
    {i : Nat} {d : String} (hd : notebook.documents[i]? = some d) :
    ∃ files texts, w.chainOf d = .ok files ∧
      files.map (fun f => Uri.key f.uri) = (notebook.documents.take (i + 1)).map Uri.key ∧
      (notebook.documents.take (i + 1)).map h.textAt = texts.map some ∧
      w.chainedSource d = .ok ("\n".intercalate texts) := by
  obtain ⟨h', hbefore, hlast⟩ := handleAll_last hrun
  have hstore := ((inOrder_blank settings hblank).handleAll hbefore).store
  have ho := (inOrder_blank settings hblank).handleAll hrun
  have hchained : h.Chained notebook.documents :=
    handle_structural hstore hlast hs hk (by simp [cellsAt, hn]) hkeys
  obtain ⟨es, ht, htrail, htexts⟩ := ho.toMirrors.trail hchained hopen hw howns hd
  have hfiled := ho.files.of_mem hw
  refine ⟨_, _, ht.chainOf, ?_, ?_, ht.chainedSource hfiled⟩
  · rw [← htrail, ← List.map_reverse, List.map_map]
    refine List.map_congr_left fun e he => ?_
    exact hfiled _ _ (ht.get?_of_mem (List.mem_reverse.mp he))
  · rw [← htexts]
    simp

def twoCells : List Notification :=
  [.openNotebook ⟨"nb:1", "t", 1, none, [⟨.code, "c:a", none, none⟩, ⟨.code, "c:b", none, none⟩]⟩
    [⟨"c:a", .unnamed, 1, "a"⟩, ⟨"c:b", .unnamed, 1, "b"⟩]]

def between : NotebookChange :=
  ⟨none, some ⟨1, 0, [⟨.code, "c:m", none, none⟩], [⟨"c:m", .unnamed, 1, "m"⟩], []⟩, none, none⟩

def threeCells : Hub :=
  (Hub.handleAll { roster := .start true }
    (twoCells ++ [.changeNotebook "nb:1" 2 between])).toOption.getD {}

theorem notebook_reads_as_program_threeCells :
    ∃ w ∈ threeCells.roster.all, ∃ files, w.chainOf "c:b" = .ok files ∧
      files.map (fun f => Uri.key f.uri) = [.ok ⟨"c:a"⟩, .ok ⟨"c:m"⟩, .ok ⟨"c:b"⟩] ∧
      w.chainedSource "c:b" = .ok "a\nm\nb" := by
  have hrun : Hub.handleAll { settings := {}, roster := .start true }
      (twoCells ++ [.changeNotebook "nb:1" 2 between]) = .ok threeCells :=
    handleAll_getD (by decide +kernel) {}
  have hcells : (threeCells.store.get? ⟨"nb:1"⟩).map Notebook.documents =
      some ["c:a", "c:m", "c:b"] := by
    decide +kernel
  obtain ⟨notebook, hn, hdocuments⟩ := Option.map_eq_some_iff.mp hcells
  have hkeys : ["c:a", "c:m", "c:b"].map Uri.key = [.ok ⟨"c:a"⟩, .ok ⟨"c:m"⟩, .ok ⟨"c:b"⟩] := by
    decide +kernel
  have hopen : ∀ d ∈ ["c:a", "c:m", "c:b"],
      ∃ k, Uri.key d = .ok k ∧ (threeCells.documents.get? k).isSome := by
    have ha : Uri.key "c:a" = .ok ⟨"c:a"⟩ := by decide +kernel
    have hm : Uri.key "c:m" = .ok ⟨"c:m"⟩ := by decide +kernel
    have hb : Uri.key "c:b" = .ok ⟨"c:b"⟩ := by decide +kernel
    have hall : (threeCells.documents.get? ⟨"c:a"⟩).isSome ∧
      (threeCells.documents.get? ⟨"c:m"⟩).isSome ∧
        (threeCells.documents.get? ⟨"c:b"⟩).isSome := by decide +kernel
    simp only [List.mem_cons, List.not_mem_nil, or_false, forall_eq_or_imp, forall_eq]
    exact ⟨⟨_, ha, hall.1⟩, ⟨_, hm, hall.2.1⟩, ⟨_, hb, hall.2.2⟩⟩
  have hnames : threeCells.roster.members.keys = [] ∧ threeCells.roster.fallback.isSome := by
    decide +kernel
  obtain ⟨w, hw⟩ := Option.isSome_iff_exists.mp hnames.2
  have hmembers : threeCells.roster.members.values = [] := by
    simpa [Table.keys, Table.values] using hnames.1
  have howns : ∀ p, w ∈ threeCells.roster.owners p := by
    simp [Roster.owners, Roster.hasOwner, hmembers, hw]
  have hmem : w ∈ threeCells.roster.all := by simp [Roster.all, hw]
  have hblank : (Roster.start true).Blank := Roster.blank_ofFolders true []
  have hkey : Uri.key "nb:1" = .ok ⟨"nb:1"⟩ := by decide +kernel
  have hlast : notebook.documents[2]? = some "c:b" := by rw [hdocuments]; rfl
  obtain ⟨files, texts, hchain, hfiles, htexts, hsource⟩ :=
    notebook_reads_as_program hblank hrun rfl hkey hn (by rw [hdocuments, hkeys]; decide)
      (hdocuments ▸ hopen) hmem (fun _ _ p _ => howns p) hlast
  rw [hdocuments] at hfiles htexts
  have hread : [some "a", some "m", some "b"] = texts.map some := by
    rw [← htexts]
    decide +kernel
  obtain rfl : ["a", "m", "b"] = texts :=
    List.map_injective_iff.mpr (fun _ _ => Option.some.inj) hread
  refine ⟨w, hmem, files, hchain, ?_, ?_⟩
  · rw [hfiles]
    exact hkeys
  · rw [hsource]
    rfl

end Hub
end NotebookHub
