import NotebookHub.Proofs.Schedules

namespace NotebookHub

namespace Roster

theorem Round.names_along (p : Path) (round : Round) (ps : List Post) :
    (along p round ps).2.map (fun post => (post.workspace.name, post.owns)) =
      ps.map fun post => (post.workspace.name, post.owns) := by
  induction ps generalizing round with
  | nil => rfl
  | cons post ps ih =>
    have hv : (round.visit p post).2.workspace.name = post.workspace.name ∧
        (round.visit p post).2.owns = post.owns := by
      unfold visit
      split
      · exact ⟨post.workspace.name_receive _, rfl⟩
      · exact ⟨rfl, rfl⟩
    simp [along, ih, hv]

def SameOwners (r s : Roster) : Prop :=
  ∀ p, (s.owners p).map Workspace.name = (r.owners p).map Workspace.name

theorem SameOwners.refl (r : Roster) : r.SameOwners r := fun _ => rfl

theorem SameOwners.trans {r s t : Roster} (h : r.SameOwners s) (h' : s.SameOwners t) :
    r.SameOwners t :=
  fun p => (h' p).trans (h p)

theorem sameOwners_deliver (r : Roster) (m : Message) : r.SameOwners (r.deliver m).2 := by
  intro p
  have hnames (s : Roster) : (s.owners p).map Workspace.name =
      ((s.posts.map fun post => (post.workspace.name, post.owns)).filter fun x => x.2 p).map
        Prod.fst := by
    simp [owners_eq, List.filter_map, Function.comp_def]
  rw [hnames, hnames, posts_deliver, Round.names_along]

def linkCalls (r : Roster) (links : List Link) : List Call :=
  links.flatMap fun l => (r.owners l.cell.path).map fun w => .told w.name l.message

theorem linkCalls_append (r : Roster) (links links' : List Link) :
    r.linkCalls (links ++ links') = r.linkCalls links ++ r.linkCalls links' := List.flatMap_append

theorem SameOwners.linkCalls {r s : Roster} (h : r.SameOwners s) (links : List Link) :
    s.linkCalls links = r.linkCalls links := by
  have hone (l : Link) : (s.owners l.cell.path).map (fun w => Call.told w.name l.message) =
      (r.owners l.cell.path).map fun w => Call.told w.name l.message := by
    have hnames := congrArg (List.map fun name => Call.told name l.message) (h l.cell.path)
    simpa [Function.comp_def] using hnames
  unfold Roster.linkCalls
  rw [funext hone]

end Roster

namespace Hub

theorem linkCalls_eq (h : Hub) (due : Option (ChainPass × Link)) :
    h.linkCalls due = h.roster.linkCalls (due.toList.map Prod.snd) := by
  cases due with
  | none => rfl
  | some due => simp [linkCalls, Roster.linkCalls]

theorem sameOwners_tellOwners (h : Hub) (m : Message) :
    h.roster.SameOwners (h.tellOwners m).1.roster := by
  rw [tellOwners_roster]
  exact h.roster.sameOwners_deliver m

theorem sameOwners_perform (h : Hub) (e : Errand) : h.roster.SameOwners (h.perform e).1.roster := by
  unfold perform
  split
  · rw [deliver_eq]
    split
    · exact h.sameOwners_tellOwners _
    · exact .refl _
  · split
    · exact .refl _
    · split
      · exact h.sameOwners_tellOwners _
      · exact .refl _

theorem sameOwners_work (h : Hub) (x : Handler) : h.roster.SameOwners (h.work x).1.roster := by
  cases hp : x.progress with
  | queued =>
    rw [(h.work_registers (C := fun _ => True) hp fun _ _ => trivial).roster]
    exact .refl _
  | delivering es =>
    simp only [work, hp]
    cases es with
    | nil => exact .refl _
    | cons e es =>
      obtain ⟨journal, he⟩ := (h.perform e).1.proceed_eq ((h.perform e).2.toList ++ es)
      have hresume : (h.resume (e :: es)).1 = { (h.perform e).1 with journal } := he
      rw [hresume]
      exact h.sameOwners_perform e

/-- The links that errands will tell if the passes stay as they are. -/
def dueLinks (h : Hub) (es : List Errand) : List Link :=
  ((passesOf es).filter (h.passes.isCurrent ·.token)).flatMap ChainPass.links

theorem dueLinks_append (h : Hub) (es fs : List Errand) :
    h.dueLinks (es ++ fs) = h.dueLinks es ++ h.dueLinks fs := by
  simp [dueLinks, passesOf_append]

/-- Passes that end have no link due. -/
theorem dueLinks_proceed (h g : Hub) (es : List Errand) :
    h.dueLinks (g.proceed es).2 = h.dueLinks es := by
  fun_induction proceed g es with
  | case1 => rfl
  | case2 g es notebook token total ih =>
    rw [ih]
    cases hc : h.passes.isCurrent token <;>
      simp [dueLinks, passesOf, Errand.pass?, hc]
  | case3 => rfl

/-- A lookup tells the link that was due first and leaves the others due. -/
theorem dueLinks_resume (h : Hub) {x : Handler} {es : List Errand}
    (hp : x.progress = .delivering es) :
    (x.linkDue h).toList.map Prod.snd ++ h.dueLinks (h.resume es).2 = h.dueLinks es := by
  cases es with
  | nil => simp [Handler.linkDue, hp, resume]
  | cons e es =>
    have hresume : h.dueLinks (h.resume (e :: es)).2 =
        h.dueLinks (h.perform e).2.toList ++ h.dueLinks es := by
      rw [← dueLinks_append]
      exact h.dueLinks_proceed _ _
    have hcons : h.dueLinks (e :: es) = h.dueLinks [e] ++ h.dueLinks es := h.dueLinks_append [e] es
    rw [hresume, hcons, ← List.append_assoc]
    congr 1
    unfold Handler.linkDue
    rw [hp]
    cases e with
    | notice n => simp [perform, dueLinks, passesOf, Errand.pass?]
    | publish p =>
      obtain ⟨notebook, token, links, total⟩ := p
      cases links with
      | nil => cases hc : h.passes.isCurrent token
        <;> simp [perform, dueLinks, passesOf, Errand.pass?, hc]
      | cons l links =>
        cases hc : h.passes.isCurrent token <;> simp [perform, dueLinks, passesOf, Errand.pass?, hc]

/-- What is due depends on which of the passes are current. -/
theorem dueLinks_congr {h g : Hub} {es : List Errand}
    (hc : ∀ pass ∈ passesOf es, g.passes.isCurrent pass.token = h.passes.isCurrent pass.token) :
    g.dueLinks es = h.dueLinks es := by
  unfold dueLinks
  rw [List.filter_congr hc]

end Hub

namespace Dispatcher

def owedBy (d : Dispatcher) (id : Nat) : List Errand := ((d.handler? id).map Handler.owed).getD []

def dueBy (d : Dispatcher) (id : Nat) : List Link := d.hub.dueLinks (d.owedBy id)

def linksIn (d : Dispatcher) (id : Nat) (e : Event) : List Call :=
  match e with
  | .resume i =>
    if i = id then ((d.step e).hub.calls.drop d.hub.calls.length).filter Call.isLink else []
  | _ => []

def linksBy (d : Dispatcher) (id : Nat) : List Event → List Call
  | [] => []
  | e :: events => d.linksIn id e ++ (d.step e).linksBy id events

section Handlers

variable {d : Dispatcher} {x : Handler}

theorem handler?_eq_none {id : Nat} (h : ∀ y ∈ d.handlers, y.id ≠ id) : d.handler? id = none := by
  apply List.find?_eq_none.mpr
  intro y hy
  simpa using h y hy

theorem mem_work_of_ne {y : Handler} (hy : y ∈ d.handlers) (hid : y.id ≠ x.id) :
    y ∈ (d.work x).handlers := by
  rcases work_cases d x with ⟨fault, he, _⟩ | ⟨e, es, he, _⟩
  · rw [he]
    exact List.mem_filter.mpr ⟨hy, by simpa using hid⟩
  · rw [he]
    refine List.mem_map.mpr ⟨y, hy, ?_⟩
    rw [if_neg hid]

theorem owedBy_eq (ho : d.Orderly) (hx : x ∈ d.handlers) : d.owedBy x.id = x.owed := by
  simp [owedBy, ho.handler?_eq hx]

theorem owedBy_eq_nil {id : Nat} (h : ∀ y ∈ d.handlers, y.id = id → y.progress = .queued) :
    d.owedBy id = [] := by
  cases hf : d.handler? id with
  | none => simp [owedBy, hf]
  | some y =>
    have hid : y.id = id := by simpa using List.find?_some hf
    have hq := h y (List.mem_of_find?_eq_some hf) hid
    simp [owedBy, hf, Handler.owed, hq]

/-- A newcomer owes nothing yet. -/
theorem owedBy_join (ho : d.Orderly) (n : Notification) (k : Key) (id : Nat) :
    (d.join n k).owedBy id = d.owedBy id := by
  by_cases hid : id = d.arrived
  · have hnone : ∀ y ∈ d.handlers, y.id ≠ id := fun y hy => hid ▸ Nat.ne_of_lt (ho.arrived y hy)
    rw [owedBy_eq_nil fun y hy he => absurd he (hnone y hy), owedBy_eq_nil fun y hy he => ?_]
    rcases List.mem_append.mp hy with hy | hy
    · exact absurd he (hnone y hy)
    · obtain rfl := List.mem_singleton.mp hy
      rfl
  · have hnew : ¬ (d.newcomer n k).id = id := Ne.symm hid
    have hsame : (d.join n k).handler? id = d.handler? id := by
      simp [handler?, Dispatcher.join, List.find?_append, hnew]
    simp only [owedBy, hsame]

theorem owedBy_work_other (ho : d.Orderly) (hx : d.Leads x) {id : Nat} (hid : x.id ≠ id) :
    (d.work x).owedBy id = d.owedBy id := by
  cases hf : d.handler? id with
  | some y =>
    have hy : y ∈ d.handlers := List.mem_of_find?_eq_some hf
    obtain rfl : y.id = id := by simpa using List.find?_some hf
    have hafter := owedBy_eq (ho.work hx) (mem_work_of_ne hy (Ne.symm hid))
    rw [hafter, owedBy_eq ho hy]
  | none =>
    have hnone := List.find?_eq_none.mp hf
    have hafter : (d.work x).handler? id = none := by
      apply handler?_eq_none
      intro y hy he
      rcases mem_work hy with ⟨hy, _⟩ | ⟨hy, _⟩
      · exact hnone y hy (by simpa using he)
      · exact hid (hy.symm.trans he)
    simp [owedBy, hf, hafter]

theorem owedBy_work (ho : d.Orderly) (hx : d.Leads x) {es : List Errand}
    (hok : (d.hub.work x).2 = .ok es) : (d.work x).owedBy x.id = es := by
  rcases work_cases d x with ⟨fault, he, hr⟩ | ⟨e, fs, he, hr⟩
  · cases fault with
    | some fault => simp [hok] at hr
    | none =>
      obtain rfl : es = [] := Except.ok.inj (hok.symm.trans hr)
      have hnone : (d.work x).handler? x.id = none := by
        apply handler?_eq_none
        intro y hy
        rw [he] at hy
        simpa using (List.mem_filter.mp hy).2
      simp [owedBy, hnone]
  · obtain rfl : es = e :: fs := Except.ok.inj (hok.symm.trans hr)
    have hmem : { x with progress := .delivering (e :: fs) } ∈ (d.work x).handlers := by
      rw [he]
      exact List.mem_map.mpr ⟨x, hx.mem, if_pos rfl⟩
    exact owedBy_eq (ho.work hx) hmem

theorem step_resume (ho : d.Orderly) (hx : d.Leads x) : d.step (.resume x.id) = d.work x := by
  have hstep := step_happens ho (.resume x.id)
  revert hstep
  generalize hid : x.id = id
  generalize d.step (.resume id) = d'
  intro hstep
  cases hstep with
  | idle hidle =>
    rcases hidle x hx.mem hid with ⟨_, hnot⟩
    exact absurd hx hnot
  | resume hy => rw [ho.eq_of_id hx.mem hy.mem hid]

theorem linksIn_resume (ho : d.Orderly) (hx : d.Leads x) :
    d.linksIn x.id (.resume x.id) = d.hub.linkCalls (x.linkDue d.hub) := by
  obtain ⟨cs, hcs, hfilter⟩ := step_links ho (.resume x.id)
  simp only [linkDue, ho.handler?_eq hx.mem, Option.bind_some] at hfilter
  simp [linksIn, hcs, hfilter]

end Handlers

/-- A step in which a handler is not at work leaves what it owes, and tells no link of it. -/
theorem owedBy_step_other {d : Dispatcher} (ho : d.Orderly) {id : Nat} (hid : id < d.arrived)
    (e : Event) (hnot : ∀ x, d.Leads x → x.id = id → e ≠ .resume x.id) :
    (d.step e).owedBy id = d.owedBy id ∧ d.linksIn id e = [] := by
  have hstep := step_happens ho e
  generalize hd : d.step e = d' at hstep
  cases hstep with
  | save uri => exact ⟨rfl, rfl⟩
  | refuse hn hk => exact ⟨rfl, rfl⟩
  | wait hn hk => exact ⟨owedBy_join ho _ _ _, rfl⟩
  | begin hn hk hx =>
    refine ⟨?_, rfl⟩
    rw [owedBy_work_other (ho.join _ _) hx (Nat.ne_of_gt hid), owedBy_join ho]
  | idle hidle => exact ⟨rfl, by simp [linksIn, hd]⟩
  | resume hx =>
    rename_i x
    have hne : x.id ≠ id := fun he => hnot x hx he rfl
    exact ⟨owedBy_work_other ho hx hne, by simp [linksIn, hne]⟩
  | shutdown => exact ⟨rfl, rfl⟩

/-- What a handler tells in a step was due before, and what else was due is due still. -/
theorem told_due_step {d : Dispatcher} (ho : d.Orderly) {id : Nat}
    (hid : id < d.arrived) {e : Event}
    (hu : (d.step e).Unfailing) (hbegun : ∀ x ∈ d.handlers, x.id = id → x.progress ≠ .queued)
    (hc : ∀ pass ∈ passesOf (d.owedBy id),
      (d.step e).hub.passes.isCurrent pass.token = d.hub.passes.isCurrent pass.token) :
    d.linksIn id e ++ d.hub.roster.linkCalls ((d.step e).dueBy id) =
      d.hub.roster.linkCalls (d.dueBy id) := by
  by_cases hwork : ∃ x, d.Leads x ∧ x.id = id ∧ e = .resume x.id
  · obtain ⟨x, hx, rfl, rfl⟩ := hwork
    rw [step_resume ho hx] at hu hc ⊢
    obtain ⟨es, hok⟩ := hu.work
    cases hp : x.progress with
    | queued => exact absurd hp (hbegun x hx.mem rfl)
    | delivering fs =>
      have hleft : es = (d.hub.resume fs).2 := by
        simp only [Hub.work, hp] at hok
        exact (Except.ok.inj hok).symm
      have howed : d.owedBy x.id = fs := by
        rw [owedBy_eq ho hx.mem, Handler.owed, hp]
      rw [howed] at hc
      have hsame : (d.work x).dueBy x.id = d.hub.dueLinks (d.hub.resume fs).2 := by
        rw [dueBy, owedBy_work ho hx hok, hleft]
        apply Hub.dueLinks_congr
        intro pass hpass
        obtain ⟨whole, hwhole, htoken, _⟩ := Hub.passes_resume hpass
        rw [htoken]
        exact hc whole hwhole
      rw [hsame, linksIn_resume ho hx, Hub.linkCalls_eq, ← Roster.linkCalls_append,
        d.hub.dueLinks_resume hp, dueBy, howed]
  · have hnot : ∀ x, d.Leads x → x.id = id → e ≠ .resume x.id :=
      fun x hx hid he => hwork ⟨x, hx, hid, he⟩
    obtain ⟨howed, hnone⟩ := owedBy_step_other ho hid e hnot
    rw [hnone, List.nil_append, dueBy, dueBy, howed, Hub.dueLinks_congr hc]

/-- A step that is no shutdown leaves the workspaces with the paths that they own. -/
theorem sameOwners_step {d : Dispatcher} (ho : d.Orderly) {e : Event}
    (he : e.isOfNotebooks = true) :
    d.hub.roster.SameOwners (d.step e).hub.roster := by
  have hwork (d : Dispatcher) (x : Handler) : d.hub.roster.SameOwners (d.work x).hub.roster := by
    obtain ⟨passes, hhub⟩ := work_hub d x
    rw [hhub]
    exact d.hub.sameOwners_work x
  have hstep := step_happens ho e
  generalize d.step e = d' at hstep ⊢
  cases hstep with
  | save uri => exact .refl _
  | refuse hn hk => exact .refl _
  | wait hn hk => exact .refl _
  | begin hn hk hx => exact hwork (d.join _ _) _
  | idle hid => exact .refl _
  | resume hx => exact hwork d _
  | shutdown => cases he

end Dispatcher
end NotebookHub
