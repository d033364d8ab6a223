import NotebookHub.Proofs.Isolation
import NotebookHub.Proofs.Hearing

namespace NotebookHub

namespace Notice

def move? : Notice → Option (Key × Bool)
  | .opened a .. => some (a.key, true)
  | .closed a => some (a.key, false)
  | .changed .. => none

theorem moves_iff {n : Notice} {k : Key} : n.Moves k ↔ ∃ isOpen, n.move? = some (k, isOpen) := by
  cases n <;> simp [Moves, move?]

variable {n : Notice}

theorem SaysOpened.move? {p : String × Option String} (ho : n.SaysOpened p) :
    n.move? = (Uri.key p.1).toOption.map (·, true) := by
  obtain ⟨a, life, version, text, mode, rfl, hk⟩ := ho
  rw [hk]
  rfl

theorem SaysClosed.move? {uri : String} (hc : n.SaysClosed uri) :
    n.move? = (Uri.key uri).toOption.map (·, false) := by
  obtain ⟨a, rfl, hk⟩ := hc
  rw [hk]
  rfl

theorem SaysEdited.move? {change : ContentChange} (he : n.SaysEdited change) : n.move? = none := by
  obtain ⟨a, life, settled, rfl, _⟩ := he
  rfl

end Notice

def movesTo (isOpen : Bool) (uris : List String) : List (Key × Bool) :=
  uris.filterMap fun uri => (Uri.key uri).toOption.map (·, isOpen)

theorem mem_movesTo {isOpen b : Bool} {uris : List String} {k : Key} :
    (k, b) ∈ movesTo isOpen uris ↔ b = isOpen ∧ ∃ uri ∈ uris, Uri.key uri = .ok k := by
  simp only [movesTo, List.mem_filterMap, keyed_eq_some]
  constructor
  · rintro ⟨uri, hu, hk, rfl⟩
    exact ⟨rfl, uri, hu, hk⟩
  · rintro ⟨rfl, uri, hu, hk⟩
    exact ⟨uri, hu, hk, rfl⟩

def Notification.moves (n : Notification) : List (Key × Bool) :=
  movesTo true n.opened ++ movesTo false n.closed

def openAfter (k : Key) (was : Bool) (moves : List (Key × Bool)) : Bool :=
  moves.foldl (fun was m => if m.1 = k then m.2 else was) was

theorem openAfter_append (k : Key) (was : Bool) (ms ms' : List (Key × Bool)) :
    openAfter k was (ms ++ ms') = openAfter k (openAfter k was ms) ms' := List.foldl_append

theorem openAfter_movesTo (k : Key) (was isOpen : Bool) (uris : List String) :
    openAfter k was (movesTo isOpen uris) =
      if uris.any (Uri.key · = .ok k) then isOpen else was := by
  induction uris generalizing was with
  | nil => rfl
  | cons uri uris ih =>
    have hcons : movesTo isOpen (uri :: uris) = movesTo isOpen [uri] ++ movesTo isOpen uris :=
      List.filterMap_append (l := [uri])
    have hone : openAfter k was (movesTo isOpen [uri]) = if Uri.key uri =
        .ok k then isOpen else was := by
      cases hk : Uri.key uri <;> simp [movesTo, openAfter, hk, Except.toOption]
    rw [hcons, openAfter_append, ih, hone]
    by_cases hk : Uri.key uri = .ok k
    · simp [hk]
    · simp [hk]

/-- What is closed is closed; what is opened besides is open, and the rest stays as it was. -/
theorem Notification.openAfter_moves (n : Notification) (k : Key) (was : Bool) :
    openAfter k was n.moves = (!n.closes k && (n.opens k || was)) := by
  rw [moves, openAfter_append, openAfter_movesTo, openAfter_movesTo, opens, closes]
  cases n.closed.any (Uri.key · = .ok k) <;> cases n.opened.any (Uri.key · = .ok k) <;> rfl

/-- The notices of a registration say what is open after it. -/
theorem Registry.Alters.isOpen {r r' : Registry} {ns : List Notice} (ha : r.Alters r' ns)
    (hr : r.Sound) (k : Key) :
    (r'.get? k).isSome = openAfter k (r.get? k).isSome (ns.filterMap Notice.move?) := by
  induction ha with
  | refl => rfl
  | @enter r' ns steps o ho ih =>
    have hkey := (Hub.enter_spec (steps.sound hr) ho).2.2.1
    rw [get?_enter, List.filterMap_append, openAfter_append, ← ih]
    by_cases hk : o.address.key = k
    · simp [openAfter, Notice.move?, hkey, hk]
    · simp [openAfter, Notice.move?, hkey, hk]
  | update steps hd ih =>
    rw [get?_update, List.filterMap_append, openAfter_append, ← ih]
    split
    · rw [Option.isSome_map]
      rfl
    · rfl
  | link steps k' predecessor ih =>
    rw [get?_link, ← ih]
    split
    · simp
    · rfl
  | close steps a ih =>
    rw [get?_close, List.filterMap_append, openAfter_append, ← ih]
    by_cases hk : a.key = k
    · simp [openAfter, Notice.move?, hk]
    · simp [openAfter, Notice.move?, hk]

namespace Hub

variable {h g : Hub} {n : Notification} {token : Option Token} {es : List Errand}

theorem Tells.moves {ns : List Notice} (ht : h.Tells n ns) :
    ns.filterMap Notice.move? = n.moves := by
  obtain ⟨opened, closed, edited, rfl, ho, hc, he⟩ := ht
  have hedited : edited.filterMap Notice.move? = [] := by
    rw [List.filterMap_eq_nil_iff]
    intro x hx
    obtain ⟨c, _, hx⟩ := he x hx
    exact hx.move?
  have hopened : opened.filterMap Notice.move? = movesTo true n.opened := by
    rw [filterMap_of_forall₂ (fun _ _ hx => hx.move?) ho, ← map_fst_openings h, movesTo,
      List.filterMap_map]
    rfl
  have hclosed : closed.filterMap Notice.move? = movesTo false n.closed :=
    filterMap_of_forall₂ (fun _ _ hx => hx.move?) hc
  rw [List.filterMap_append, List.filterMap_append, hopened, hclosed, hedited, List.append_nil,
    Notification.moves]

/-- The notices of a notification say what it opens and closes, if it takes effect. -/
theorem begin_moves (hs : h.Shelved) (hrun : (begin n token).on h = (g, .ok es)) :
    (noticesOf es).filterMap Notice.move? = if h.heeds n then n.moves else [] := by
  obtain ⟨htells, hnone⟩ := begin_tells hs hrun
  cases hheeds : h.heeds n with
  | true => exact (htells hheeds).moves
  | false => rw [hnone hheeds]; rfl

/-- There is a notice of the opening or closing of a document when the notification takes effect and
names it so. -/
theorem moved_of_begin (hs : h.Shelved) (hrun : (begin n token).on h = (g, .ok es)) {k : Key} :
    (∃ x ∈ noticesOf es, x.Moves k) ↔
    h.heeds n = true ∧ (n.opens k = true ∨ n.closes k = true) := by
  have hmoves (b : Bool) : (∃ x ∈ noticesOf es, x.move? = some (k, b)) ↔
      h.heeds n = true ∧ (k, b) ∈ n.moves := by
    rw [← List.mem_filterMap, begin_moves hs hrun]
    split <;> simp_all
  have hlisted (b : Bool) : (k, b) ∈ n.moves ↔ b = true ∧ n.opens k = true ∨ b = false ∧
      n.closes k = true := by
    simp [Notification.moves, mem_movesTo, Notification.opens, Notification.closes]
  constructor
  · rintro ⟨x, hx, hm⟩
    obtain ⟨b, hb⟩ := Notice.moves_iff.mp hm
    obtain ⟨hheeds, hmem⟩ := (hmoves b).mp ⟨x, hx, hb⟩
    exact ⟨hheeds, ((hlisted b).mp hmem).imp And.right And.right⟩
  · rintro ⟨hheeds, hnamed⟩
    rcases hnamed with ho | hc
    · obtain ⟨x, hx, hb⟩ := (hmoves true).mpr ⟨hheeds, (hlisted true).mpr (.inl ⟨rfl, ho⟩)⟩
      exact ⟨x, hx, Notice.moves_iff.mpr ⟨true, hb⟩⟩
    · obtain ⟨x, hx, hb⟩ := (hmoves false).mpr ⟨hheeds, (hlisted false).mpr (.inr ⟨rfl, hc⟩)⟩
      exact ⟨x, hx, Notice.moves_iff.mpr ⟨false, hb⟩⟩

def leavesOpen (h : Hub) (n : Notification) (k : Key) (was : Bool) : Bool :=
  if h.heeds n then !n.closes k && (n.opens k || was) else was

/-- What a notification leaves open in the registry. -/
theorem open_of_begin (hs : h.Shelved) (hrun : (begin n token).on h = (g, .ok es)) (k : Key) :
    (g.documents.get? k).isSome = h.leavesOpen n k (h.documents.get? k).isSome := by
  rw [(altered_of_begin hrun).isOpen hs k, begin_moves hs hrun, leavesOpen]
  split
  · exact n.openAfter_moves k _
  · rfl

end Hub
end NotebookHub
