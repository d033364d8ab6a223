import NotebookHub.Proofs.Edits
import NotebookHub.Proofs.Tables
import NotebookHub.Workspace.Roster

namespace NotebookHub

structure Content where
  mode : Mode
  predecessor : Option String
  text : String
  version : Int
  deriving DecidableEq, Repr

def Document.content (d : Document) : Content := ⟨d.mode, d.predecessor, d.text, d.version⟩

def File.content (f : File) : Content := ⟨f.mode, f.predecessor, f.text, f.version⟩

namespace Message

/-- What a workspace makes of a message, by what it holds of the document. -/
def effect (m : Message) (held : Option Content) : Option Content :=
  match m with
  | .opened _ version text mode predecessor => some ⟨mode, predecessor, text, version.getD 0⟩
  | .closed _ => none
  | .changed _ edits version =>
    held.map fun c => { c with text := (Edit.applyAll edits c.text).1, version := version.getD 0 }
  | .linked _ predecessor => held.map fun c => { c with predecessor }

def isLink : Message → Bool
  | .linked .. => true
  | _ => false

end Message

namespace Workspace

@[simp] theorem contains_receive (w : Workspace) (m : Message) :
    (w.receive m).1.contains = w.contains := by
  unfold receive
  repeat' split
  all_goals rfl

@[simp] theorem name_receive (w : Workspace) (m : Message) : (w.receive m).1.name = w.name := by
  unfold receive
  repeat' split
  all_goals rfl

theorem document_receive (w : Workspace) (m : Message) :
    (w.receive m).2.message.document = m.document := by
  unfold receive
  repeat' split
  all_goals rfl

theorem isLink_receive (w : Workspace) (m : Message) :
    (w.receive m).2.message.isLink = m.isLink := by
  unfold receive
  repeat' split
  all_goals rfl

/-- Only edits are altered by those who apply them. -/
theorem message_receive (w : Workspace) {m : Message}
    (h : ∀ a edits version, m ≠ .changed a edits version) :
    (w.receive m).2.message = m := by
  unfold receive
  split
  · rfl
  · rfl
  · exact absurd rfl (h _ _ _)
  · split <;> rfl

theorem content_receive (w : Workspace) (m : Message) (k : Key) :
    ((w.receive m).1.get? k).map File.content =
      if m.document.key = k then m.effect ((w.get? k).map File.content)
      else (w.get? k).map File.content := by
  by_cases hk : m.document.key = k
  · subst hk
    rw [if_pos rfl]
    cases m with
    | opened a version text mode predecessor =>
      simp [receive, get?, Message.document, Message.effect, File.content]
    | closed a => simp [receive, get?, Message.document, Message.effect]
    | changed a edits version =>
      cases hf : w.get? a.key with
      | none => simp [receive, hf, Message.document, Message.effect]
      | some f =>
        simp only [receive, hf, Message.document, Message.effect]
        simp [get?, File.content]
    | linked a predecessor =>
      cases hf : w.get? a.key with
      | none => simp [receive, hf, Message.document, Message.effect]
      | some f =>
        simp only [receive, hf, Message.document, Message.effect]
        simp [get?, File.content]
  · rw [if_neg hk]
    unfold receive
    cases m with
    | opened a version text mode predecessor =>
      have hne : ¬ a.key = k := hk
      simp [get?, hne]
    | closed a =>
      have hne : ¬ a.key = k := hk
      simp [get?, hne]
    | changed a edits version =>
      have hne : ¬ a.key = k := hk
      dsimp only
      split <;> simp [get?, hne]
    | linked a predecessor =>
      have hne : ¬ a.key = k := hk
      dsimp only
      split <;> simp [get?, hne]

/-- Edits that one workspace has settled do to an equal text what they did to the first. -/
theorem effect_receive (w : Workspace) (m : Message) :
    (w.receive m).2.message.effect ((w.get? m.document.key).map File.content) =
      m.effect ((w.get? m.document.key).map File.content) := by
  cases m with
  | opened a version text mode predecessor => rfl
  | closed a => rfl
  | linked a predecessor => rw [w.message_receive (by intro _ _ _; exact nofun)]
  | changed a edits version =>
    unfold receive
    cases hf : w.get? a.key with
    | none => simp [hf, Message.document, Message.effect]
    | some f => simp [hf, Message.document, Message.effect, File.content, Edit.applyAll_settled]

end Workspace

structure Post where
  workspace : Workspace
  owns : Path → Bool

def Post.content (post : Post) (k : Key) : Option Content :=
  (post.workspace.get? k).map File.content

namespace Roster

/-- The members own what their folders contain, the fallback what nobody else owns. -/
def posts (r : Roster) : List Post :=
  r.members.values.map (fun w => ⟨w, w.contains⟩) ++
    r.fallback.toList.map fun w => ⟨w, fun p => !r.hasOwner p⟩

theorem workspaces_posts (r : Roster) : r.posts.map Post.workspace = r.all := by
  simp [posts, all, Function.comp_def]

theorem owners_eq (r : Roster) (p : Path) :
    r.owners p = (r.posts.filter (·.owns p)).map Post.workspace := by
  unfold owners posts
  cases ho : r.hasOwner p with
  | true => simp [List.filter_map, Function.comp_def, ho]
  | false =>
    have hnone : r.members.values.filter (·.contains p) = [] := by
      simpa [hasOwner] using ho
    simp [List.filter_map, Function.comp_def, ho, hnone, List.filter_eq_self.mpr]

namespace Round

def visit (p : Path) (round : Round) (post : Post) : Round × Post :=
  if post.owns p then
    ((round.pass post.workspace).1, { post with workspace := (round.pass post.workspace).2 })
  else (round, post)

def along (p : Path) : Round → List Post → Round × List Post
  | round, [] => (round, [])
  | round, post :: posts =>
    let (round, post) := round.visit p post
    let (round, posts) := along p round posts
    (round, post :: posts)

theorem along_append (p : Path) (round : Round) (ps qs : List Post) :
    along p round (ps ++ qs) =
      ((along p (along p round ps).1 qs).1,
      (along p round ps).2 ++ (along p (along p round ps).1 qs).2) := by
  induction ps generalizing round with
  | nil => rfl
  | cons post ps ih => simp [along, ih]

/-- Posts that do not own the path are passed by. -/
theorem along_of_not_owned {p : Path} {ps : List Post} (h : ∀ post ∈ ps, post.owns p = false)
    (round : Round) : along p round ps = (round, ps) := by
  induction ps with
  | nil => rfl
  | cons post ps ih =>
    have hv : round.visit p post = (round, post) := by simp [visit, h post (by simp)]
    simp [along, hv, ih fun q hq => h q (by simp [hq])]

@[simp] theorem contains_pass (round : Round) (w : Workspace) :
    (round.pass w).2.contains = w.contains := w.contains_receive _

/-- The posts are the same posts after a round. -/
theorem owns_along (p : Path) (round : Round) (ps : List Post) :
    (along p round ps).2.map Post.owns = ps.map Post.owns := by
  induction ps generalizing round with
  | nil => rfl
  | cons post ps ih =>
    have hv : (round.visit p post).2.owns = post.owns := by
      unfold visit
      split <;> rfl
    simp [along, hv, ih]

/-- Owners are told of a link in turn, each in the same words. -/
theorem told_along_link {p : Path} {m : Message} (hm : m.isLink = true)
    (told : List (String × Message × Receipt)) (ps : List Post) :
    (along p ⟨m, told⟩ ps).1.told.map (fun t => (t.1, t.2.1)) =
      told.map (fun t => (t.1, t.2.1)) ++
        (ps.filter (·.owns p)).map fun post => (post.workspace.name, m) := by
  have hsame (w : Workspace) : (w.receive m).2.message = m :=
    w.message_receive fun a edits version he => by simp [he, Message.isLink] at hm
  induction ps generalizing told with
  | nil => simp [along]
  | cons post ps ih =>
    by_cases ho : post.owns p = true
    · simp [along, visit, ho, pass, hsame, ih]
    · simp [along, visit, ho, ih]

/-- Of what is no link nobody is told as of a link. -/
theorem told_along_other {p : Path} {round : Round} {ps : List Post}
    (hm : round.message.isLink = false) (ht : ∀ t ∈ round.told, t.2.1.isLink = false) :
    ∀ t ∈ (along p round ps).1.told, t.2.1.isLink = false := by
  induction ps generalizing round with
  | nil => exact ht
  | cons post ps ih =>
    unfold along
    by_cases ho : post.owns p = true
    · simp only [visit, if_pos ho]
      apply ih ((post.workspace.isLink_receive _).trans hm)
      intro t hmem
      rcases List.mem_append.mp hmem with hmem | hmem
      · exact ht t hmem
      · obtain rfl := List.mem_singleton.mp hmem
        exact hm
    · simp only [visit, if_neg ho]
      exact ih hm ht

/-- Members that contain the path are passed as posts that own it. -/
theorem passThrough_eq_along {κ : Type} (p : Path) (round : Round) (es : List (κ × Workspace)) :
    let visited := Table.passThrough
      (fun round w => if w.contains p then round.pass w else (round, w)) round es
    let post := fun e : κ × Workspace => (⟨e.2, e.2.contains⟩ : Post)
    (along p round (es.map post)) = (visited.1, visited.2.map post) := by
  induction es generalizing round with
  | nil => rfl
  | cons e es ih =>
    simp only [List.map_cons, along, visit, Table.passThrough]
    by_cases hc : e.2.contains p = true
    · simp [hc, ih]
    · simp [hc, ih]

end Round

theorem hasOwner_congr {r s : Roster}
    (h : r.members.values.map Workspace.contains = s.members.values.map Workspace.contains) :
    r.hasOwner = s.hasOwner := by
  have hany (t : Roster) (p : Path) :
      t.hasOwner p = (t.members.values.map Workspace.contains).any (· p) := by
    simp [hasOwner, List.any_map, Function.comp_def]
  funext p
  rw [hany, hany, h]

/-- Delivering a message is a round of all posts. -/
theorem deliver_eq_along (r : Roster) (m : Message) :
    ((r.deliver m).1, (r.deliver m).2.posts) = Round.along m.document.path ⟨m, []⟩ r.posts := by
  have hmember (es : List (String × Workspace)) :
      (es.map Prod.snd).map (fun w => (⟨w, w.contains⟩ : Post)) =
        es.map fun e => ⟨e.2, e.2.contains⟩ := by simp [Function.comp_def]
  rw [show r.posts = _ ++ _ from rfl, Round.along_append, Table.values, hmember]
  cases ho : r.hasOwner m.document.path with
  | true =>
    have hfallback : ∀ post ∈ r.fallback.toList.map (fun w => (⟨w, fun p => !r.hasOwner p⟩ : Post)),
        post.owns m.document.path = false := by simp [ho]
    rw [Round.along_of_not_owned hfallback, Round.passThrough_eq_along]
    have howns := Round.owns_along m.document.path ⟨m, []⟩
      (r.members.entries.map fun e => (⟨e.2, e.2.contains⟩ : Post))
    rw [Round.passThrough_eq_along] at howns
    simp only [deliver, ho, if_true, posts, Table.visit, Table.values, hmember]
    rw [hasOwner_congr (s := r)]
    simpa [Table.values, Function.comp_def] using howns
  | false =>
    have hmembers : ∀ post ∈ r.members.entries.map (fun e => (⟨e.2, e.2.contains⟩ : Post)),
        post.owns m.document.path = false := by
      intro post hp
      obtain ⟨e, he, rfl⟩ := List.mem_map.mp hp
      have hnone := List.any_eq_false.mp ho e.2 (List.mem_map_of_mem he)
      simpa using hnone
    rw [Round.along_of_not_owned hmembers]
    cases hf : r.fallback with
    | none => simp [deliver, ho, posts, hf, Table.values, hmember, Round.along]
    | some w =>
      simp only [deliver, hf, Bool.false_eq_true, if_false, posts, Table.values, hmember,
        Option.toList_some,
        List.map_cons, List.map_nil, Round.along, Round.visit, ho, Bool.not_false, if_true]
      rfl

theorem round_deliver (r : Roster) (m : Message) :
    (r.deliver m).1 = (Round.along m.document.path ⟨m, []⟩ r.posts).1 :=
  congrArg Prod.fst (r.deliver_eq_along m)

theorem posts_deliver (r : Roster) (m : Message) :
    (r.deliver m).2.posts = (Round.along m.document.path ⟨m, []⟩ r.posts).2 :=
  congrArg Prod.snd (r.deliver_eq_along m)

theorem told_deliver_link (r : Roster) {m : Message} (hm : m.isLink = true) :
    (r.deliver m).1.told.map (fun t => (t.1, t.2.1)) =
      (r.owners m.document.path).map fun w => (w.name, m) := by
  rw [round_deliver, Round.told_along_link hm, owners_eq]
  simp

theorem told_deliver_other (r : Roster) {m : Message} (hm : m.isLink = false) :
    ∀ t ∈ (r.deliver m).1.told, t.2.1.isLink = false := by
  rw [round_deliver]
  exact Round.told_along_other hm (by simp)

/-- Owners that held `v` of the document now hold what the message makes of `v`, and nobody holds
anything else than before of any other. -/
theorem content_along {p : Path} {m : Message} {v : Option Content} {round : Round} {ps : List Post}
    (hd : round.message.document = m.document) (he : round.message.effect v = m.effect v)
    (hv : ∀ post ∈ ps, post.owns p = true → post.content m.document.key = v) :
    ∀ post' ∈ (Round.along p round ps).2, ∃ post ∈ ps, post'.owns = post.owns ∧
      ∀ k, post'.content k =
        if post.owns p = true ∧ m.document.key = k then m.effect v else post.content k := by
  induction ps generalizing round with
  | nil => simp [Round.along]
  | cons post ps ih =>
    intro post' hp
    have hrest : ∀ q ∈ ps, q.owns p = true → q.content m.document.key = v :=
      fun q hq => hv q (by simp [hq])
    by_cases ho : post.owns p = true
    · have hown := hv post (by simp) ho
      simp only [Round.along, Round.visit, if_pos ho, List.mem_cons] at hp
      rcases hp with rfl | hp
      · refine ⟨post, by simp, rfl, fun k => ?_⟩
        have hc := post.workspace.content_receive round.message k
        rw [hd] at hc
        by_cases hk : m.document.key = k
        · subst hk
          rw [if_pos ⟨ho, rfl⟩, ← he, ← hown]
          simpa [Post.content, Round.pass] using hc
        · rw [if_neg (fun h => hk h.2)]
          simpa [Post.content, Round.pass, hk] using hc
      · have hdoc := post.workspace.document_receive round.message
        have heff := post.workspace.effect_receive round.message
        rw [hd] at heff
        obtain ⟨q, hq, hrest⟩ := @ih (round.pass post.workspace).1 (hdoc.trans hd) (by
          rw [← he, ← hown]
          exact heff) hrest post' hp
        exact ⟨q, by simp [hq], hrest⟩
    · simp only [Round.along, Round.visit, if_neg ho, List.mem_cons] at hp
      rcases hp with rfl | hp
      · refine ⟨post', by simp, rfl, fun k => ?_⟩
        rw [if_neg fun h => ho h.1]
      · obtain ⟨q, hq, hrest⟩ := ih hd he hrest post' hp
        exact ⟨q, by simp [hq], hrest⟩

theorem content_deliver {r : Roster} {m : Message} {v : Option Content}
    (hv : ∀ post ∈ r.posts, post.owns m.document.path = true → post.content m.document.key = v) :
    ∀ post' ∈ (r.deliver m).2.posts, ∃ post ∈ r.posts, post'.owns = post.owns ∧
      ∀ k, post'.content k =
        if post.owns m.document.path = true ∧ m.document.key = k then m.effect v
        else post.content k := by
  rw [posts_deliver]
  exact content_along rfl rfl hv

end Roster
end NotebookHub
