import Mathlib.Data.List.Forall2
import NotebookHub.Proofs.Delivering
import NotebookHub.Proofs.Mirror

namespace NotebookHub

namespace Edit

/-- Every position of the batch lies where the text that its edit meets has it. -/
def Settled (es : List Edit) (text : String) : Prop := (applyAll es text).2 = es

/-- Whoever applies a batch leaves it settled. -/
theorem settled_applyAll (es : List Edit) (text : String) : Settled (applyAll es text).2 text :=
  congrArg Prod.snd (applyAll_settled es text)

end Edit

namespace Workspace

/-- The file under a key got another text and version, and all else is as it was. -/
structure Revised (k : Key) (text : String) (version : Int) (w w' : Workspace) : Prop where
  name : w'.name = w.name
  root : w'.root = w.root
  file : w'.get? k = (w.get? k).map fun f => { f with text, version }
  others : ∀ k', k ≠ k' → w'.get? k' = w.get? k'

variable {w : Workspace} {a : Address} {es : List Edit} {text : String}

/-- A workspace that holds the text on which a batch is settled leaves the batch as it is. -/
theorem message_receive_settled (hes : Edit.Settled es text)
    (hw : ∀ f ∈ w.get? a.key, f.text = text) (version : Option Int) :
    (w.receive (.changed a es version)).2.message = .changed a es version := by
  cases hf : w.get? a.key with
  | none => simp [receive, hf]
  | some f =>
    have hsettled : (Edit.applyAll es f.text).2 = es := hw f hf ▸ hes
    simp only [receive, hf, hsettled]

/-- It revises its file by the batch, if it has one. -/
theorem revised_receive (hw : ∀ f ∈ w.get? a.key, f.text = text) (version : Int) :
    Revised a.key (Edit.applyAll es text).1 version w
      (w.receive (.changed a es (some version))).1 := by
  cases hf : w.get? a.key with
  | none => exact ⟨by simp [receive, hf],
    by simp [receive, hf], by simp [receive, hf], by simp [receive, hf]⟩
  | some f =>
    have hfound : w.files.get? a.key = some f := hf
    simp only [receive, hf, ← hw f hf]
    exact ⟨rfl, rfl, by simp [get?, hfound], fun k hk => by simp [get?, hk]⟩

end Workspace

namespace Roster

/-- A message that no owner alters reaches each of them as it was sent. -/
theorem Round.along_unaltered {p : Path} {m : Message} {ps : List Post}
    (hm : ∀ post ∈ ps, post.owns p = true → (post.workspace.receive m).2.message = m)
    (told : List (String × Message × Receipt)) :
    (along p ⟨m, told⟩ ps).1.message = m ∧
      ((along p ⟨m, told⟩ ps).2.filter (·.owns p)).map Post.workspace =
        ((ps.filter (·.owns p)).map Post.workspace).map fun w => (w.receive m).1 := by
  induction ps generalizing told with
  | nil => exact ⟨rfl, rfl⟩
  | cons post ps ih =>
    have hrest := fun q hq => hm q (List.mem_cons_of_mem post hq)
    by_cases ho : post.owns p = true
    · have hsame := hm post (by simp) ho
      simp only [along, visit, if_pos ho, pass, hsame]
      obtain ⟨hmessage, howners⟩ :=
        ih hrest (told ++ [(post.workspace.name, m, (post.workspace.receive m).2)])
      exact ⟨hmessage, by simp [ho, howners]⟩
    · simp only [along, visit, if_neg ho]
      obtain ⟨hmessage, howners⟩ := ih hrest told
      exact ⟨hmessage, by simp [ho, howners]⟩

theorem deliver_unaltered {r : Roster} {m : Message}
    (hm : ∀ w ∈ r.owners m.document.path, (w.receive m).2.message = m) :
    (r.deliver m).1.message = m ∧
      (r.deliver m).2.owners m.document.path = (r.owners m.document.path).map
      fun w => (w.receive m).1 := by
  have hposts : ∀ post ∈ r.posts, post.owns m.document.path = true →
      (post.workspace.receive m).2.message = m := by
    intro post hp ho
    refine hm _ ?_
    rw [owners_eq]
    exact List.mem_map_of_mem (List.mem_filter.mpr ⟨hp, ho⟩)
  rw [owners_eq, owners_eq, round_deliver, posts_deliver]
  exact Round.along_unaltered hposts []

end Roster

/-- An open document is edited where it is. -/
theorem Registry.get?_update_open {r : Registry} {k : Key} {d : Document} (hd : r.get? k = some d)
    (edits : List Edit) (version : Int) :
    (r.update k edits version).1.get? k = some
    { d with text := (Edit.applyAll edits d.text).1, version } := by
  rw [get?_update, if_pos rfl, hd, Option.map_some]

namespace Hub

/-- The change of a document that is open leaves a notice of the batch as the registry settled
it. -/
theorem registerChange_on {h : Hub} {k : Key} {d : Document} {change : ContentChange}
    (hk : Uri.key change.uri = .ok k) (hd : h.documents.get? k = some d) (mode : Mode) :
    ∃ journal, (registerChange change mode).on h =
      ({ h with documents := (h.documents.update k change.edits change.version).1, journal },
        .ok (some (.changed d.address d.life (Edit.applyAll change.edits d.text).2
          change.version))) := by
  simp only [registerChange, updateDocument, Act.keyOf, Act.on_bind, hk, Act.on_lift_ok, Act.on_get,
    Registry.get?_update_open hd, Registry.update_settled _ _ hd, Act.on_modify, Act.on_pure]
  exact ⟨_, rfl⟩

/-- Owners that hold the text on which a batch is settled are told of it, and each revises its
file. -/
theorem deliver_settled {h : Hub} {a : Address} {life : Nat} {es : List Edit} {version : Int}
    {text : String}
    (hes : Edit.Settled es text) (hgood : h.isGood (.changed a life es version) = true)
    (hheld : ∀ w ∈ h.roster.owners a.path, ∀ f ∈ w.get? a.key, f.text = text) :
    (h.deliver (.changed a life es version)).2 = (.changed a life es version, true) ∧
      List.Forall₂ (Workspace.Revised a.key (Edit.applyAll es text).1 version)
        (h.roster.owners a.path)
        ((h.deliver (.changed a life es version)).1.roster.owners a.path) := by
  let m : Message := .changed a es (some version)
  obtain ⟨hmessage, howners⟩ : (h.roster.deliver m).1.message = m ∧
      (h.roster.deliver m).2.owners a.path = (h.roster.owners a.path).map
        fun w => (w.receive m).1 :=
    Roster.deliver_unaltered fun w hw => Workspace.message_receive_settled hes (hheld w hw) _
  constructor
  · have hcurrent : h.documents.isCurrent a.key life = true := hgood
    have htold : h.tellOwners m = ((h.tellOwners m).1, m) := Prod.ext rfl hmessage
    simp only [deliver, hcurrent, if_true]
    rw [htold]
  · rw [deliver_eq, if_pos hgood, tellOwners_roster, Notice.message, howners,
      List.forall₂_map_right_iff, List.forall₂_same]
    exact fun w hw => Workspace.revised_receive (hheld w hw) version

/-- Take a document that the registry holds, whatever its text, and any batch of edits of it. The
registry applies the batch, and its notice carries the batch as that settled it. However many owners
there are, and whenever they are told: if those that hold the document held the same text, each of
them ends with the text and the version of the registry, and all else that they hold stays. The
notice stays as it was too, so that it means the same when it is told again. -/
theorem batch_reads_alike {h : Hub} {d : Document} (hd : h.documents.get? d.address.key = some d)
    {change : ContentChange} (hk : Uri.key change.uri = .ok d.address.key) (mode : Mode) :
    ∃ (g : Hub) (text : String) (settled : List Edit) (notice : Notice),
      Edit.applyAll change.edits d.text = (text, settled) ∧
      notice = .changed d.address d.life settled change.version ∧
      (registerChange change mode).on h = (g, .ok (some notice)) ∧ g.isGood notice = true ∧
      g.documents.get? d.address.key = some { d with text, version := change.version } ∧
      ∀ f : Hub, f.isGood notice = true →
        (∀ w ∈ f.roster.owners d.address.path, ∀ file ∈ w.get? d.address.key, file.text = d.text) →
        (f.deliver notice).2 = (notice, true) ∧
          List.Forall₂ (Workspace.Revised d.address.key text change.version)
            (f.roster.owners d.address.path)
            ((f.deliver notice).1.roster.owners d.address.path) := by
  obtain ⟨journal, hrun⟩ := registerChange_on hk hd mode
  have hopen := Registry.get?_update_open hd change.edits change.version
  have hsettled := Edit.settled_applyAll change.edits d.text
  refine ⟨_, _, _, _, rfl, rfl, hrun, ?_, hopen, fun f hgood hheld => ?_⟩
  · simp [isGood, Registry.isCurrent, hopen]
  · have htold := deliver_settled hsettled hgood hheld
    rwa [Edit.applyAll_settled] at htold

/-- A file that belongs to two workspaces, the folder of one of them in that of the other. -/
def sharedFile : Hub :=
  ((overFolders {} [("inner", ⟨.single, ["a"]⟩), ("outer", ⟨.single, []⟩)]).handle
    (.openDocument ⟨"file:///a/x", .unnamed, 1, "a😀b\r\nlast"⟩)).1

/-- Edits past the ends of lines, into the midst of a character, and of a range that ends before it
begins. -/
def straying : List Edit := [.span ⟨0, 99⟩ ⟨1, 50⟩ "X", .span ⟨0, 2⟩ ⟨0, 1⟩ "Y"]

theorem batch_reads_alike_sharedFile :
    ∃ (g : Hub) (settled : List Edit) (notice : Notice),
      Edit.applyAll straying "a😀b\r\nlast" = ("a😀Y😀bXt", settled) ∧ settled ≠ straying ∧
      (registerChange ⟨"file:///a/x", 2, straying⟩ .file).on sharedFile = (g, .ok (some notice)) ∧
      (sharedFile.roster.owners ⟨.single, ["a", "x"]⟩).map Workspace.name = ["inner", "outer"] ∧
      List.Forall₂ (Workspace.Revised ⟨"file:///a/x"⟩ "a😀Y😀bXt" 2)
        (sharedFile.roster.owners ⟨.single, ["a", "x"]⟩)
        ((g.deliver notice).1.roster.owners ⟨.single, ["a", "x"]⟩) := by
  let a : Address := ⟨"file:///a/x", ⟨"file:///a/x"⟩, ⟨.single, ["a", "x"]⟩⟩
  let d : Document := ⟨a, .unnamed, .file, none, "a😀b\r\nlast", 1, 1⟩
  let change : ContentChange := ⟨"file:///a/x", 2, straying⟩
  have hd : sharedFile.documents.get? d.address.key = some d := by decide +kernel
  have hk : Uri.key change.uri = .ok d.address.key := by decide +kernel
  have hheld : ∀ w ∈ sharedFile.roster.owners d.address.path, ∀ file ∈ w.get? d.address.key,
      file.text = d.text := by decide +kernel
  have happly : Edit.applyAll straying "a😀b\r\nlast" =
      ("a😀Y😀bXt", [.span ⟨0, 4⟩ ⟨1, 3⟩ "X", .span ⟨0, 2⟩ ⟨0, 1⟩ "Y"]) := by decide +kernel
  obtain ⟨g, text, settled, notice, hall, _, hrun, hgood, _, htold⟩ := batch_reads_alike hd hk .file
  obtain ⟨rfl, rfl⟩ := Prod.mk.inj (happly.symm.trans hall)
  have hroster : g.roster = sharedFile.roster := by
    obtain ⟨journal, hon⟩ := registerChange_on hk hd .file
    rw [hon] at hrun
    cases hrun
    rfl
  obtain ⟨_, hrevised⟩ := htold g hgood (hroster ▸ hheld)
  refine ⟨g, _, notice, happly, by decide, hrun, by decide +kernel, ?_⟩
  rwa [hroster] at hrevised

end Hub
end NotebookHub
