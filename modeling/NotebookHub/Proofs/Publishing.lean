import NotebookHub.Proofs.Posts
import NotebookHub.Proofs.Scopes
import NotebookHub.Proofs.Turns

namespace NotebookHub

def Call.isLink : Call → Bool
  | .told _ m => m.isLink
  | _ => false

def Handler.linkDue (x : Handler) (h : Hub) : Option (ChainPass × Link) :=
  match x.progress with
  | .delivering (.publish p :: _) =>
    match p.links with
    | [] => none
    | l :: _ => if h.passes.isCurrent p.token then some (p, l) else none
  | _ => none

namespace Hub

def linkCalls (h : Hub) (due : Option (ChainPass × Link)) : List Call :=
  match due with
  | none => []
  | some (_, l) => (h.roster.owners l.cell.path).map fun w => .told w.name l.message

theorem tellOwners_link (h : Hub) {m : Message} (hm : m.isLink = true) :
    (h.tellOwners m).1.calls =
      h.calls ++ (h.roster.owners m.document.path).map fun w => .told w.name m := by
  obtain ⟨journal, he⟩ := h.tellOwners_eq m
  have htold := congrArg (List.map fun t => Call.told t.1 t.2) (h.roster.told_deliver_link hm)
  rw [he]
  simpa [Function.comp_def] using htold

theorem tellOwners_other (h : Hub) {m : Message} (hm : m.isLink = false) :
    ∃ cs, (h.tellOwners m).1.calls = h.calls ++ cs ∧ cs.filter Call.isLink = [] := by
  obtain ⟨journal, he⟩ := h.tellOwners_eq m
  refine ⟨_, by rw [he], ?_⟩
  rw [List.filter_eq_nil_iff]
  intro c hc
  obtain ⟨t, ht, rfl⟩ := List.mem_map.mp hc
  simpa [Call.isLink] using h.roster.told_deliver_other hm t ht

theorem perform_calls (h : Hub) (e : Errand) :
    ∃ cs, (h.perform e).1.calls = h.calls ++ cs ∧
      cs.filter Call.isLink = match e with
        | .notice _ => []
        | .publish p => match p.links with
          | [] => []
          | l :: _ => if h.passes.isCurrent p.token then h.linkCalls (some (p, l)) else [] := by
  cases e with
  | notice n =>
    simp only [perform, deliver_eq]
    split
    · apply h.tellOwners_other
      cases n <;> rfl
    · exact ⟨[], by simp [note]⟩
  | publish p =>
    obtain ⟨notebook, token, links, total⟩ := p
    cases links with
    | nil => exact ⟨[], by simp [perform]⟩
    | cons l links =>
      simp only [perform]
      cases hc : h.passes.isCurrent token with
      | true =>
        refine ⟨_, h.tellOwners_link rfl, ?_⟩
        apply List.filter_eq_self.mpr
        intro c hm
        obtain ⟨w, _, rfl⟩ := List.mem_map.mp hm
        rfl
      | false => exact ⟨[], by simp [note]⟩

/-- A handler whose turn has come begins its notification, and proceeds if that goes well. -/
theorem work_begins {h : Hub} {x : Handler} {es : List Errand} (hp : x.progress = .queued)
    (hok : (h.work x).2 = .ok es) :
    ∃ g fs, (begin x.notification x.ticket.token).on h = (g, .ok fs) ∧
      (h.work x).1 = (g.proceed fs).1 ∧ es = (g.proceed fs).2 := by
  simp only [work, hp] at hok ⊢
  rcases hrun : (begin x.notification x.ticket.token).on h with ⟨g, fault | fs⟩
  · simp [hrun] at hok
  · simp only [hrun] at hok ⊢
    exact ⟨g, fs, rfl, rfl, (Except.ok.inj hok).symm⟩

/-- Whether that goes well or not, it changes only what its notification may. -/
theorem work_registers (h : Hub) {x : Handler} {C : String → Prop} (hp : x.progress = .queued)
    (hC : ∀ d ∈ x.notification.listed, C d) :
    Registers x.notification.About x.notification.Touches C h (h.work x).1 := by
  simp only [work, hp]
  rcases hrun : (begin x.notification x.ticket.token).on h with ⟨g, fault | es⟩
  · exact registers_of_begin hrun hC
  · obtain ⟨journal, he⟩ := g.proceed_eq es
    dsimp only
    rw [he]
    exact (registers_of_begin hrun hC).withJournal journal

/-- One that was at a lookup has nothing more to register. -/
theorem work_speaks (h : Hub) {x : Handler} {es : List Errand} (hp : x.progress = .delivering es) :
    Speaks h (h.work x).1 := by
  simp only [work, hp]
  exact h.resume_speaks es

/-- What its notification preserves and talk does not touch, a handler preserves. -/
theorem work_preserves {h : Hub} {x : Handler} {P : Hub → Prop}
    (hspeak : ∀ h g, Speaks h g → P h → P g)
    (hbegin : x.progress = .queued → Act.Preserves P (begin x.notification x.ticket.token))
    (hp : P h) :
    P (h.work x).1 := by
  cases hq : x.progress with
  | delivering es => exact hspeak _ _ (h.work_speaks hq) hp
  | queued =>
    have hbegun := hbegin hq h hp
    simp only [work, hq]
    rcases hrun : (begin x.notification x.ticket.token).on h with ⟨g, fault | es⟩
      <;> rw [hrun] at hbegun
    · exact hbegun
    · exact hspeak _ _ (g.proceed_speaks es) hbegun

theorem work_calls (h : Hub) (x : Handler) :
    ∃ cs, (h.work x).1.calls = h.calls ++ cs ∧ cs.filter Call.isLink =
      h.linkCalls (x.linkDue h) := by
  cases hp : x.progress with
  | queued =>
    obtain ⟨cs, hcs, hrecorded⟩ :=
      (h.work_registers (C := fun _ => True) hp fun _ _ => trivial).calls
    refine ⟨cs, hcs, ?_⟩
    simp only [Handler.linkDue, hp, linkCalls]
    rw [List.filter_eq_nil_iff]
    intro c hc
    cases c with
    | told w m => exact absurd rfl (hrecorded _ hc w m)
    | _ => simp [Call.isLink]
  | delivering es =>
    simp only [work, Handler.linkDue, hp]
    cases es with
    | nil => exact ⟨[], by simp [resume, linkCalls]⟩
    | cons e es =>
      obtain ⟨cs, hcs, hfilter⟩ := h.perform_calls e
      obtain ⟨journal, he⟩ := (h.perform e).1.proceed_eq ((h.perform e).2.toList ++ es)
      refine ⟨cs, by simp [resume, he, hcs], ?_⟩
      rw [hfilter]
      cases e with
      | notice n => rfl
      | publish p =>
        obtain ⟨notebook, token, links, total⟩ := p
        cases links with
        | nil => rfl
        | cons l links => dsimp only; split <;> rfl

end Hub

namespace Dispatcher

def linkDue (d : Dispatcher) : Event → Option (ChainPass × Link)
  | .resume id => (d.handler? id).bind (·.linkDue d.hub)
  | _ => none

theorem work_hub (d : Dispatcher) (x : Handler) :
    ∃ passes, (d.work x).hub = { (d.hub.work x).1 with passes } := by
  rcases work_cases d x with ⟨fault, he, _⟩ | ⟨e, es, he, _⟩
  · rw [he]
    exact ⟨_, Hub.conclude_eq ..⟩
  · rw [he]
    exact ⟨(d.hub.work x).1.passes, rfl⟩

/-- A run preserves what no talk touches and every notification preserves, failing or not. -/
theorem run_preserves {d : Dispatcher} {P : Hub → Prop} (hspeak : ∀ h g, Hub.Speaks h g → P h → P g)
    (hpasses : ∀ h passes, P h → P { h with passes }) (hshutdown : ∀ h, P h → P h.shutdown)
    (hbegin : ∀ n token, Act.Preserves P (Hub.begin n token)) (ho : d.Orderly) (hp : P d.hub)
    (events : List Event) : P (d.run events).hub := by
  have hwork (d : Dispatcher) (x : Handler) (hp : P d.hub) : P (d.work x).hub := by
    obtain ⟨passes, hhub⟩ := work_hub d x
    rw [hhub]
    exact hpasses _ passes (d.hub.work_preserves hspeak (fun _ => hbegin _ _) hp)
  induction events generalizing d with
  | nil => exact hp
  | cons e events ih =>
    refine ih (ho.step e) ?_
    have hstep := step_happens ho e
    generalize d.step e = d' at hstep ⊢
    cases hstep with
    | save uri => exact hspeak d.hub (d.hub.note (.saveNotebook uri)) ⟨rfl, rfl, rfl, rfl, rfl⟩ hp
    | refuse hn hk => exact hp
    | wait hn hk => exact hpasses _ _ hp
    | begin hn hk hx => exact hwork (d.join _ _) _ (hpasses _ _ hp)
    | idle hid => exact hp
    | resume hx => exact hwork d _ hp
    | shutdown => exact hshutdown _ hp

/-- The links that a step tells are those of the pass that it publishes. -/
theorem step_links {d : Dispatcher} (ho : d.Orderly) (e : Event) :
    ∃ cs, (d.step e).hub.calls = d.hub.calls ++ cs ∧
      cs.filter Call.isLink = d.hub.linkCalls (d.linkDue e) := by
  have hstep := step_happens ho e
  generalize d.step e = d' at hstep ⊢
  cases hstep with
  | save uri => exact ⟨[], by simp [Hub.note, linkDue, Hub.linkCalls]⟩
  | refuse hn hk => exact ⟨[], by simp [refuse, linkDue, Hub.linkCalls]⟩
  | wait hn hk => exact ⟨[], by simp [join, linkDue, Hub.linkCalls]⟩
  | begin hn hk hx =>
    rename_i n k
    obtain ⟨passes, hhub⟩ := work_hub (d.join n k) (d.newcomer n k)
    obtain ⟨cs, hcs, hfilter⟩ := (d.join n k).hub.work_calls (d.newcomer n k)
    exact ⟨cs, by rw [hhub]; exact hcs, hfilter⟩
  | idle hid =>
    rename_i id
    refine ⟨[], by simp, ?_⟩
    cases hf : d.handler? id with
    | none => simp [linkDue, hf, Hub.linkCalls]
    | some x =>
      have hx := hid x (List.mem_of_find?_eq_some hf) (by simpa using List.find?_some hf)
      simp [linkDue, hf, Handler.linkDue, hx.1, Hub.linkCalls]
  | resume hx =>
    rename_i x
    obtain ⟨passes, hhub⟩ := work_hub d x
    obtain ⟨cs, hcs, hfilter⟩ := d.hub.work_calls x
    refine ⟨cs, by rw [hhub]; exact hcs, ?_⟩
    simpa [linkDue, ho.handler?_eq hx.mem] using hfilter
  | shutdown =>
    refine ⟨d.hub.roster.all.map fun w => Call.cleared w.name, rfl, ?_⟩
    simp [linkDue, Hub.linkCalls, List.filter_eq_nil_iff, Call.isLink]

end Dispatcher
end NotebookHub
