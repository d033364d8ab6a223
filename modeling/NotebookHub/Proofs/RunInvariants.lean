import NotebookHub.Proofs.Indexing

namespace NotebookHub

theorem Registry.sound_clear (r : Registry) : r.clear.Sound := fun k d hd => by
  simp [clear, get?] at hd

namespace Hub

/-- What every operation preserves every notification preserves. Those about notebooks record
nothing. -/
theorem begin_preserves {P : Hub → Prop} {n : Notification} (token : Option Token)
    (hjot : ∀ note, Act.Preserves P (Act.jot note))
    (hcall : n.isNotebook = false → ∀ h c, P h → P (h.call c))
    (hopenStore : ∀ item, Act.Preserves P (openInStore item))
    (hversion : ∀ key version metadata, Act.Preserves P (applyVersion key version metadata))
    (hstructure : ∀ key notebook change, Act.Preserves P (applyStructure key notebook change token))
    (hdata : ∀ key updates, Act.Preserves P (applyData key updates))
    (hcloseStore : ∀ key h, P h → P { h with store := h.store.close key })
    (hopen : ∀ item mode predecessor, Act.Preserves P (registerOpen item mode predecessor))
    (hchange : ∀ change mode, Act.Preserves P (registerChange change mode))
    (hclose : ∀ uri, Act.Preserves P (registerClose uri))
    (hstage : ∀ uri t, Act.Preserves P (stage uri t)) : Act.Preserves P (begin n token) := by
  have hrecord (hn : n.isNotebook = false) (c : Call) :
      Act.Preserves P (do modify (·.call c); return ([] : List Errand)) :=
    (Act.Preserves.modify fun h hp => hcall hn h c hp).bind fun _ => .pure _
  cases n with
  | openNotebook notebook items =>
    exact beginOpen_preserves hjot token (hopenStore notebook) (fun item _ => hopen item .cell)
      (hstage notebook.uri)
  | changeNotebook uri version change =>
    exact beginChange_preserves hjot token (fun key _ => hversion key version _)
      (fun key _ _ notebook _ _ s _ => hstructure key notebook s) fun key _ =>
        changeCells_preserves (hdata key) fun c _ => hchange c .cell
  | saveNotebook uri => exact (hjot _).bind fun _ => .pure _
  | closeNotebook uri cells =>
    exact beginClose_preserves hjot (fun key _ => hcloseStore key) fun u _ => hclose u
  | openDocument item =>
    exact routed_preserves ((hopen item _ _).bind fun _ => .pure _) (hrecord rfl _)
  | changeDocument change =>
    exact routed_preserves ((hchange change _).bind fun _ => .pure _) (hrecord rfl _)
  | closeDocument uri => exact routed_preserves ((hclose uri).bind fun _ => .pure _) (hrecord rfl _)

/-- The index is kept right when a cell list is spliced, and a notebook that is not open has none to
splice. -/
theorem applyStructure_indexes (N : Key) (notebook : Notebook) (change : StructureChange)
    (token : Option Token) :
    Act.Preserves (fun h => h.store.Indexed) (applyStructure N notebook change token) := by
  intro h hs
  cases hn : h.store.get? N with
  | some n => exact splice_indexes N notebook change token h ⟨hs, by simp [hn]⟩
  | none =>
    have hsame : Act.Leaves (fun g => g = h) (applyStructure N notebook change token)
        fun g => g.store = h.store := by
      refine .past (.modify _) (R := fun g => g.store = h.store) (fun g hg => ?_) fun _ => ?_
      · have hnone : h.store.notebooks.get? N = none := hn
        simp [hg, Store.modify, Table.modify, hnone]
      refine Act.Leaves.bind (Q := fun g => g.store = h.store) (fun g hg => ?_) fun _ =>
        Act.Preserves.bind (.modify fun _ hg => hg) fun _ =>
          applyStructure_rest (fun _ _ hg => hg) (fun _ _ hg => hg) notebook change token _
      rw [reindex_on, hg]
      simp [Store.reindex, hn]
    change (((applyStructure N notebook change token).on h).1).store.Indexed
    rw [hsame h rfl]
    exact hs

theorem begin_indexes (n : Notification) (token : Option Token) :
    Act.Preserves (fun h => h.store.Indexed) (begin n token) :=
  begin_preserves token (fun _ _ hs => hs) (fun _ _ _ hs => hs) openInStore_indexes
    (fun N version metadata h hs =>
      (applyVersion_sameCells h.store N version metadata h (.refl _)).indexed hs)
    (fun N notebook change => applyStructure_indexes N notebook change token)
    (fun N updates h hs => (applyData_sameCells h.store N updates h (.refl _)).indexed hs)
    (fun N _ hs => hs.close N) (registerOpen_keeps (fun _ _ hs => hs) fun _ _ hs => hs)
    (registerChange_keeps (fun _ _ hs => hs) fun _ _ hs => hs)
    (registerClose_keeps (fun _ _ hs => hs) fun _ _ hs => hs)
      (stage_keeps (fun _ _ hs => hs) fun _ _ hs => hs)

def Shelved (h : Hub) : Prop := h.documents.Sound

theorem Shelved.speak {h g : Hub} (hs : h.Shelved) (hg : Speaks h g) : g.Shelved := by
  unfold Shelved
  rw [hg.documents]
  exact hs

section Documents

theorem enterDocument_shelved (item : TextItem) (mode : Mode) (predecessor : Option String) :
    Act.Preserves Shelved (enterDocument item mode predecessor) := by
  intro h hs
  cases ha : Address.of item.uri with
  | error e =>
    rw [enterDocument_on_error ha]
    exact hs
  | ok a =>
    obtain ⟨js, he⟩ := enterDocument_on ha mode predecessor h
    rw [he]
    exact (enter_spec hs (o := ⟨a, item.language, item.version, item.text, mode, predecessor⟩)
      (Address.sound_of ha)).1

theorem registerOpen_shelved (item : TextItem) (mode : Mode) (predecessor : Option String) :
    Act.Preserves Shelved (registerOpen item mode predecessor) :=
  registerOpen_preserves (fun _ _ hs => hs) mode predecessor fun _ _ => enterDocument_shelved _ _ _

theorem registerChange_shelved (change : ContentChange) (mode : Mode) :
    Act.Preserves Shelved (registerChange change mode) := by
  refine registerChange_preserves (fun _ _ hs => hs) mode
    (.keyOf_bind fun key _ => .get_bind fun h hs => ?_)
  dsimp only
  split
  · exact hs
  · exact hs.update key change.edits change.version

theorem registerClose_shelved (uri : String) :
    Act.Preserves Shelved (registerClose uri) :=
  registerClose_preserves (fun _ _ hs => hs) fun a _ _ hs => hs.close a.key

theorem stage_shelved (uri : String) (token : Token) :
    Act.Preserves Shelved (stage uri token) :=
  stage_preserves (fun _ _ hs => hs) token fun _ _ _ _ _ _ =>
    linkCells_preserves fun p _ a _ _ hs => hs.link a.key p.2

theorem begin_shelved (n : Notification) (token : Option Token) :
    Act.Preserves Shelved (begin n token) := by
  have hreindex (key : Key) : Act.Preserves Shelved (reindex key) :=
    reindex_keeps (fun _ _ hs => hs) key
  exact begin_preserves token (fun _ _ hs => hs) (fun _ _ _ hs => hs)
    (openInStore_keeps (fun _ _ hs => hs) fun _ _ hs => hs) (applyVersion_keeps fun _ _ hs => hs)
    (fun key _ _ => applyStructure_preserves (fun _ _ hs => hs) (fun _ hs => hs) (hreindex key)
      (fun item _ => registerOpen_shelved item .cell) (fun uri _ => registerClose_shelved uri)
      fun t _ => stage_shelved _ t)
    (applyData_keeps (fun _ _ hs => hs) fun _ _ hs => hs) (fun _ _ hs => hs) registerOpen_shelved
    registerChange_shelved registerClose_shelved stage_shelved

end Documents

end Hub

namespace Dispatcher

section Fresh

variable (settings : Settings) (route : Route) (roster : Roster) (events : List Event)

/-- The index is right after every run. -/
theorem indexed_run : ((fresh settings route roster).run events).hub.store.Indexed :=
  run_preserves (fun _ _ hs hp => hs.store ▸ hp) (fun _ _ hp => hp) (fun _ _ => Store.indexed_clear)
    Hub.begin_indexes (orderly_fresh settings route roster) Store.indexed_clear events

/-- Documents are filed under their own keys after every run. -/
theorem shelved_run : ((fresh settings route roster).run events).hub.Shelved :=
  run_preserves (fun _ _ hg hs => hs.speak hg) (fun _ _ hp => hp)
    (fun h _ => h.documents.sound_clear)
    Hub.begin_shelved (orderly_fresh settings route roster)
    (fun k d hd => by simp [fresh, start, Registry.get?] at hd) events

end Fresh
end Dispatcher
end NotebookHub
