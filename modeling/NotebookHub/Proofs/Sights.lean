import NotebookHub.Proofs.Delivering
import NotebookHub.Proofs.Posts

namespace NotebookHub

def File.unlinked (f : File) : File := { f with predecessor := none }

namespace Workspace

def sight (w : Workspace) (k : Key) : Option File := (w.get? k).map File.unlinked

theorem get?_receive (w : Workspace) (m : Message) {k : Key} (hk : m.document.key ≠ k) :
    (w.receive m).1.get? k = w.get? k := by
  unfold receive
  cases m with
  | opened a version text mode predecessor =>
    have hne : ¬ a.key = k := hk
    simp [get?, hne]
  | closed a =>
    have hne : ¬ a.key = k := hk
    simp [get?, hne]
  | changed a edits version =>
    have hne : ¬ a.key = k := hk
    dsimp only
    split <;> simp [get?, hne]
  | linked a predecessor =>
    have hne : ¬ a.key = k := hk
    dsimp only
    split <;> simp [get?, hne]

/-- Two workspaces with one sight of a document answer a message about it alike. -/
theorem receive_congr {w v : Workspace} {m : Message}
    (h : w.sight m.document.key = v.sight m.document.key) :
    (w.receive m).2 = (v.receive m).2 ∧
      (w.receive m).1.sight m.document.key = (v.receive m).1.sight m.document.key := by
  unfold sight at h
  unfold receive
  cases m with
  | opened a version text mode predecessor => exact ⟨rfl, by simp [sight, get?, Message.document]⟩
  | closed a => exact ⟨rfl, by simp [sight, get?, Message.document]⟩
  | changed a edits version =>
    simp only [Message.document] at h ⊢
    cases hw : w.get? a.key with
    | none =>
      cases hv : v.get? a.key with
      | none => simp [sight, hw, hv]
      | some g => simp [hw, hv] at h
    | some f =>
      cases hv : v.get? a.key with
      | none => simp [hw, hv] at h
      | some g =>
        rw [hw, hv, Option.map_some, Option.map_some, Option.some.injEq] at h
        obtain ⟨uri, mode, predecessor, text, version⟩ := f
        obtain ⟨uri', mode', predecessor', text', version'⟩ := g
        simp only [File.unlinked, File.mk.injEq] at h
        obtain ⟨rfl, rfl, _, rfl, _⟩ := h
        simp [sight, get?, File.unlinked]
  | linked a predecessor =>
    simp only [Message.document] at h ⊢
    cases hw : w.get? a.key with
    | none =>
      cases hv : v.get? a.key with
      | none => simp [sight, hw, hv]
      | some g => simp [hw, hv] at h
    | some f =>
      cases hv : v.get? a.key with
      | none => simp [hw, hv] at h
      | some g =>
        rw [hw, hv, Option.map_some, Option.map_some, Option.some.injEq] at h
        simpa [sight, get?, File.unlinked] using h

/-- A link is not to be seen. -/
theorem sight_receive_link (w : Workspace) {m : Message} (hm : m.isLink = true) (k : Key) :
    (w.receive m).1.sight k = w.sight k := by
  cases m with
  | linked a predecessor =>
    unfold receive sight
    cases hw : w.get? a.key with
    | none => simp [hw]
    | some f =>
      by_cases hk : a.key = k
      · subst hk
        simp only [hw]
        simp [get?, File.unlinked]
      · simp only [hw]
        simp [get?, hk]
  | opened => cases hm
  | closed => cases hm
  | changed => cases hm

end Workspace

def Post.sight (post : Post) (k : Key) : String × (Path → Bool) × Option File :=
  (post.workspace.name, post.owns, post.workspace.sight k)

namespace Roster

theorem Round.document_pass (round : Round) (w : Workspace) :
    (round.pass w).1.message.document = round.message.document := w.document_receive _

theorem Round.along_congr {p : Path} {k : Key} {round : Round} {ps qs : List Post}
    (hk : round.message.document.key = k) (h : ps.map (Post.sight · k) = qs.map (Post.sight · k)) :
    (along p round ps).1 = (along p round qs).1 ∧
      (along p round ps).2.map (Post.sight · k) = (along p round qs).2.map (Post.sight · k) := by
  induction ps generalizing round qs with
  | nil =>
    cases qs with
    | nil => exact ⟨rfl, rfl⟩
    | cons q qs => simp at h
  | cons post ps ih =>
    cases qs with
    | nil => simp at h
    | cons q qs =>
      rw [List.map_cons, List.map_cons, List.cons.injEq] at h
      obtain ⟨hpost, hrest⟩ := h
      obtain ⟨hname, howns, hsight⟩ : post.workspace.name = q.workspace.name ∧ post.owns = q.owns ∧
          post.workspace.sight k = q.workspace.sight k := by simpa [Post.sight] using hpost
      by_cases ho : post.owns p = true
      · subst hk
        obtain ⟨hreceipt, hafter⟩ := Workspace.receive_congr hsight
        have hround : (round.pass post.workspace).1 = (round.pass q.workspace).1 := by
          simp [pass, hreceipt, hname]
        obtain ⟨h₁, h₂⟩ := @ih (round.pass post.workspace).1 qs (by rw [document_pass]) hrest
        have ho' : q.owns p = true := howns ▸ ho
        simp only [along, visit, if_pos ho, if_pos ho']
        rw [← hround]
        refine ⟨h₁, ?_⟩
        rw [List.map_cons, List.map_cons, h₂]
        simp [Post.sight, pass, hafter, howns, hname]
      · obtain ⟨h₁, h₂⟩ := ih hk hrest
        have ho' : ¬ q.owns p = true := howns ▸ ho
        simp only [along, visit, if_neg ho, if_neg ho', List.map_cons]
        exact ⟨h₁, by rw [hpost, h₂]⟩

/-- Documents that a message is not about look the same after its round. -/
theorem Round.sight_along {p : Path} {k : Key} {round : Round} {ps : List Post}
    (hm : round.message.document.key ≠ k ∨ round.message.isLink = true) :
    (along p round ps).2.map (Post.sight · k) = ps.map (Post.sight · k) := by
  induction ps generalizing round with
  | nil => rfl
  | cons post ps ih =>
    by_cases ho : post.owns p = true
    · have hsight : (round.pass post.workspace).2.sight k = post.workspace.sight k := by
        rcases hm with hk | hl
        · simp [pass, Workspace.sight, Workspace.get?_receive _ _ hk]
        · exact post.workspace.sight_receive_link hl k
      have hm' : (round.pass post.workspace).1.message.document.key ≠ k ∨
          (round.pass post.workspace).1.message.isLink = true :=
        hm.imp (fun hk => by rwa [document_pass])
          (fun hl => (post.workspace.isLink_receive _).trans hl)
      have hname : (round.pass post.workspace).2.name = post.workspace.name :=
        post.workspace.name_receive _
      simp only [along, visit, if_pos ho, List.map_cons, ih hm']
      simp [Post.sight, hsight, hname]
    · simp only [along, visit, if_neg ho, List.map_cons, ih hm]

/-- A round only tells of its own document. -/
theorem Round.document_told {p : Path} {a : Address} {round : Round} {ps : List Post}
    (hm : round.message.document = a) (ht : ∀ t ∈ round.told, t.2.1.document = a) :
    ∀ t ∈ (along p round ps).1.told, t.2.1.document = a := by
  induction ps generalizing round with
  | nil => exact ht
  | cons post ps ih =>
    unfold along
    by_cases ho : post.owns p = true
    · simp only [visit, if_pos ho]
      apply ih ((round.document_pass _).trans hm)
      intro t hmem
      rcases List.mem_append.mp hmem with hmem | hmem
      · exact ht t hmem
      · obtain rfl := List.mem_singleton.mp hmem
        exact hm
    · simp only [visit, if_neg ho]
      exact ih hm ht

theorem deliver_congr {r s : Roster} {m : Message}
    (h : r.posts.map (Post.sight · m.document.key) = s.posts.map (Post.sight · m.document.key)) :
    (r.deliver m).1 = (s.deliver m).1 ∧
      (r.deliver m).2.posts.map (Post.sight · m.document.key) =
        (s.deliver m).2.posts.map (Post.sight · m.document.key) := by
  rw [round_deliver, round_deliver, posts_deliver, posts_deliver]
  exact Round.along_congr rfl h

theorem sight_deliver (r : Roster) {m : Message} {k : Key}
    (hm : m.document.key ≠ k ∨ m.isLink = true) :
    (r.deliver m).2.posts.map (Post.sight · k) = r.posts.map (Post.sight · k) := by
  rw [posts_deliver]
  exact Round.sight_along hm

theorem document_told (r : Roster) (m : Message) :
    ∀ t ∈ (r.deliver m).1.told, t.2.1.document = m.document := by
  rw [round_deliver]
  exact Round.document_told rfl (by simp)

end Roster
end NotebookHub
