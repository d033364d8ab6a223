import NotebookHub.Proofs.Quiescence
import NotebookHub.Proofs.Outcomes

namespace NotebookHub

namespace Hub

/-- Nothing has changed, but something may have been written down and tokens may have been issued
that are not current any more. -/
def Unmoved (h g : Hub) : Prop :=
  ∃ notes issued, g = { h with journal := h.journal ++ notes, passes := { h.passes with issued } }

theorem Unmoved.refl (h : Hub) : Unmoved h h := ⟨[], h.passes.issued, by simp⟩

theorem Unmoved.trans {h g f : Hub} (a : Unmoved h g) (b : Unmoved g f) : Unmoved h f := by
  obtain ⟨notes, issued, rfl⟩ := a
  obtain ⟨notes', issued', rfl⟩ := b
  exact ⟨notes ++ notes', issued', by simp⟩

section Closed

variable {h : Hub} {n : Notification} {N : Key}

/-- Of a notebook that is not open, a change or a closing is only written down. -/
theorem begin_of_closed (hn : n.isChange = true ∨ n.isClose = true) (hk : Uri.key n.uri = .ok N)
    (hclosed : h.store.get? N = none) (token : Option Token) :
    ∃ notes, (begin n token).on h = ({ h with journal := h.journal ++ notes }, .ok []) := by
  cases n with
  | changeNotebook uri version change =>
    have hk : Uri.key uri = .ok N := hk
    refine ⟨[.changeNotebook uri version, .changeOfClosedNotebook uri], ?_⟩
    simp [begin, beginChange, Act.on_bind, Act.jot, Act.keyOf, hk, note, hclosed, Except.map]
  | closeNotebook uri cells =>
    have hk : Uri.key uri = .ok N := hk
    refine ⟨[.closeOfUnknownNotebook uri], ?_⟩
    simp [begin, beginClose, Act.on_bind, Act.jot, Act.keyOf, hk, note, hclosed, Except.map]
  | openNotebook | saveNotebook | openDocument | changeDocument | closeDocument =>
    simp [Notification.isChange, Notification.isClose] at hn

/-- The token that a change took on arrival is gone when it has ended. -/
theorem passesAfter_of_closed (hn : n.isChange = true ∨ n.isClose = true)
    (hclosed : h.store.get? N = none) (htoken : h.passes.current.get? N = none) {g : Hub}
    (hstore : g.store = h.store) (hpasses : g.passes = h.passesAt n N) :
    ∃ issued, g.passesAfter n (.notebook N) = { h.passes with issued } := by
  have hgone : h.passes.current.erase N = h.passes.current := Table.erase_self htoken
  cases n with
  | changeNotebook uri version change =>
    refine ⟨(h.passesAt (.changeNotebook uri version change) N).issued, ?_⟩
    simp only [passesAfter, hstore, hclosed, hpasses, Passes.forget, Option.isSome_none,
      Bool.false_eq_true, if_false]
    congr 1
    cases hs : change.structural with
    | none => simp [passesAt, Notification.restarts, Notification.isClose, hs, hgone]
    | some s =>
      simp [passesAt, Notification.restarts, hs, Passes.supersede, Table.erase_insert, hgone]
  | closeNotebook uri cells =>
    refine ⟨h.passes.issued, ?_⟩
    simp [passesAfter, hpasses, passesAt, Notification.restarts, Notification.isClose,
      Passes.forget, hgone]
  | openNotebook | saveNotebook | openDocument | changeDocument | closeDocument =>
    simp [Notification.isChange, Notification.isClose] at hn

end Closed
end Hub

namespace Dispatcher

variable {d : Dispatcher} {n : Notification} {N : Key}

/-- Arriving while nobody is in flight, a change or a closing of a notebook that is not open ends at
once. -/
theorem step_of_closed (ho : d.Orderly) (hidle : d.handlers = [])
    (hn : n.isChange = true ∨ n.isClose = true) (hk : Uri.key n.uri = .ok N)
    (hclosed : d.hub.store.get? N = none) (htoken : d.hub.passes.current.get? N = none) :
    (d.step (.arrive n)).handlers = [] ∧ d.hub.Unmoved (d.step (.arrive n)).hub ∧
      (d.step (.arrive n)).ended = d.ended ++ [(d.arrived, none)] := by
  have hsave : ∀ uri, n ≠ .saveNotebook uri := by
    rintro uri rfl
    simp [Notification.isChange, Notification.isClose] at hn
  have hlock : (d.hub.ticket n N).lock = .notebook N := by
    cases n with
    | changeNotebook | closeNotebook => rfl
    | openNotebook | saveNotebook | openDocument | changeDocument | closeDocument =>
      simp [Notification.isChange, Notification.isClose] at hn
  have hline : d.lineAt (d.hub.ticket n N).lock = [] := by simp [lineAt, hidle]
  obtain ⟨notes, hbegin⟩ :=
    Hub.begin_of_closed (h := (d.join n N).hub) hn hk hclosed (d.hub.ticket n N).token
  obtain ⟨issued, hpasses⟩ := Hub.passesAfter_of_closed (g := { (d.join n N).hub with
    journal := d.hub.journal ++ notes }) hn hclosed htoken rfl rfl
  have hwork : (d.join n N).hub.work (d.newcomer n N) =
      ({ (d.join n N).hub with journal := d.hub.journal ++ notes }, .ok []) := by
    simp only [Hub.work, newcomer, hbegin, Hub.proceed]
    rfl
  rw [step_arrive ho hsave hk, hline]
  simp only [List.isEmpty_nil, if_true]
  unfold work
  rw [hwork]
  refine ⟨by simp [settle, conclude, join, hidle], ⟨notes, issued, ?_⟩, rfl⟩
  simp only [settle, List.isEmpty_nil, if_true, conclude, Hub.conclude_eq, newcomer, hlock, hpasses]
  rfl

/-- So do any number of them. One whose notebook has no key fails, with the same outcome. -/
theorem run_of_closed {ns : List Notification} (ho : d.Orderly) (hidle : d.handlers = [])
    (hns : ∀ n ∈ ns, (n.isChange = true ∨ n.isClose = true) ∧ ∀ N, Uri.key n.uri = .ok N →
      d.hub.store.get? N = none ∧ d.hub.passes.current.get? N = none) :
    (d.run (ns.map .arrive)).handlers = [] ∧ d.hub.Unmoved (d.run (ns.map .arrive)).hub ∧
      (d.Unfailing → (∀ n ∈ ns, ∃ N, Uri.key n.uri = .ok N) →
      (d.run (ns.map .arrive)).Unfailing) := by
  induction ns generalizing d with
  | nil => exact ⟨hidle, .refl _, fun hu _ => hu⟩
  | cons n ns ih =>
    obtain ⟨hn, hclosed⟩ := hns n (by simp)
    have hfirst : (d.step (.arrive n)).handlers = [] ∧ d.hub.Unmoved (d.step (.arrive n)).hub ∧
        (d.Unfailing → (∃ N, Uri.key n.uri = .ok N) → (d.step (.arrive n)).Unfailing) := by
      cases hk : Uri.key n.uri with
      | error e =>
        have hsave : ∀ uri, n ≠ .saveNotebook uri := by
          rintro uri rfl
          simp [Notification.isChange, Notification.isClose] at hn
        rw [step_arrive_keyless hsave hk]
        exact ⟨hidle, .refl _, fun _ hkey => by simp at hkey⟩
      | ok N =>
        obtain ⟨hhandlers, hhub, hended⟩ :=
          step_of_closed ho hidle hn hk (hclosed N hk).1 (hclosed N hk).2
        refine ⟨hhandlers, hhub, fun hu _ p hp => ?_⟩
        rw [hended] at hp
        rcases List.mem_append.mp hp with hp | hp
        · exact hu p hp
        · obtain rfl := List.mem_singleton.mp hp
          rfl
    obtain ⟨hidle', hunmoved, hgood⟩ := hfirst
    have hrest : ∀ m ∈ ns, (m.isChange = true ∨ m.isClose = true) ∧ ∀ N, Uri.key m.uri = .ok N →
        (d.step (.arrive n)).hub.store.get? N = none ∧
          (d.step (.arrive n)).hub.passes.current.get? N = none := by
      obtain ⟨notes, issued, he⟩ := hunmoved
      rw [he]
      exact fun m hm => hns m (List.mem_cons_of_mem n hm)
    obtain ⟨hhandlers, hhub, hended⟩ := ih (ho.step _) hidle' hrest
    exact ⟨hhandlers, hunmoved.trans hhub, fun hu hkeys =>
      hended (hgood hu (hkeys n (by simp))) fun m hm => hkeys m (List.mem_cons_of_mem n hm)⟩

/-- When no handler is in flight and none has failed, changes and closings of notebooks that are not
open, whatever they carry and however many, leave the notebooks and documents, the current tokens,
the locks and the workspaces as they are, and nobody is told anything. -/
theorem closed_notebooks_untouched {settings : Settings} {route : Route} {roster : Roster}
    {events : List Event}
    {d d' : Dispatcher} (hd : d = (fresh settings route roster).run events) (hgood : d.Unfailing)
    (hidle : d.isIdle = true) {ns : List Notification}
    (hns : ∀ n ∈ ns, (n.isChange = true ∨ n.isClose = true) ∧
      ∀ N, Uri.key n.uri = .ok N → d.hub.store.get? N = none)
    (hd' : d' = d.run (ns.map .arrive)) :
    d'.isIdle = true ∧ d.hub.Unmoved d'.hub ∧ d'.locks.locks = d.locks.locks ∧
      d'.locks.users = d.locks.users ∧
      ((∀ n ∈ ns, ∃ N, Uri.key n.uri = .ok N) → d'.Unfailing) := by
  have hnone : d.handlers = [] := List.isEmpty_iff.mp hidle
  have ho : d.Orderly := hd ▸ (orderly_fresh ..).run events
  have hclosed : ∀ n ∈ ns, (n.isChange = true ∨ n.isClose = true) ∧ ∀ N, Uri.key n.uri = .ok N →
      d.hub.store.get? N = none ∧ d.hub.passes.current.get? N = none := by
    refine fun n hn => ⟨(hns n hn).1, fun N hN => ?_⟩
    have hstore := (hns n hn).2 N hN
    refine ⟨hstore, Option.not_isSome_iff_eq_none.mp fun htoken => ?_⟩
    have hopen := open_of_token hd hgood (by simp [lineAt, hnone]) htoken
    simp [hstore] at hopen
  obtain ⟨hhandlers, hhub, hended⟩ := run_of_closed ho hnone hclosed
  have hidle' : d'.isIdle = true := by simp [hd', isIdle, hhandlers]
  have ho' : d'.Orderly := hd' ▸ ho.run _
  obtain ⟨hlocks, husers⟩ := ho.no_locks hidle
  obtain ⟨hlocks', husers'⟩ := ho'.no_locks hidle'
  subst hd'
  exact ⟨hidle', hhub, hlocks'.trans hlocks.symm, husers'.trans husers.symm, hended hgood⟩

def strays : List Notification :=
  [.changeNotebook "nb:1" 7
    ⟨some (.obj []), some ⟨0, 1, [⟨.code, "c:x", none, none⟩], [⟨"c:x", .unnamed, 1, ""⟩],
      ["c:a"]⟩, some [⟨.markup, "c:a", none, none⟩], some [⟨"c:a", 9, [.whole "b"]⟩]⟩,
    .closeNotebook "nb:1" ["c:a"]]

def bystander : Dispatcher :=
  (fresh {} .registry (.start true)).run
    [.arrive (.openNotebook ⟨"nb:2", "t", 1, none, [⟨.code, "c:a", none, none⟩]⟩
      [⟨"c:a", .unnamed, 1, "a"⟩]),
      .resume 0]

theorem closed_notebooks_untouched_bystander :
    (bystander.hub.documents.get? ⟨"c:a"⟩).isSome = true ∧ bystander.hub.calls.length = 1 ∧
      bystander.hub.Unmoved (bystander.run ((strays ++ strays).map .arrive)).hub ∧
      (bystander.run ((strays ++ strays).map .arrive)).Unfailing := by
  have hgood : bystander.Unfailing := by
    unfold Unfailing
    decide +kernel
  have hkeys : ∀ n ∈ strays ++ strays, Uri.key n.uri = .ok ⟨"nb:1"⟩ := by decide +kernel
  have hkind : ∀ n ∈ strays ++ strays, n.isChange = true ∨ n.isClose = true := by decide +kernel
  have hclosed : bystander.hub.store.get? ⟨"nb:1"⟩ = none := by decide +kernel
  obtain ⟨_, hhub, _, _, hended⟩ := closed_notebooks_untouched (d := bystander) rfl hgood
    (by decide +kernel)
    (fun n hn => ⟨hkind n hn, fun N hN => by
      obtain rfl : ⟨"nb:1"⟩ = N := Except.ok.inj ((hkeys n hn).symm.trans hN)
      exact hclosed⟩) rfl
  exact ⟨by decide +kernel, by decide +kernel, hhub, hended fun n hn => ⟨_, hkeys n hn⟩⟩

end Dispatcher
end NotebookHub
