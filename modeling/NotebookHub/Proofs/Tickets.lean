import NotebookHub.Proofs.Actions

namespace NotebookHub

namespace Notification

def uri : Notification → String
  | .openNotebook notebook _ => notebook.uri
  | .changeNotebook uri .. | .saveNotebook uri | .closeNotebook uri _ => uri
  | .openDocument item => item.uri
  | .changeDocument change => change.uri
  | .closeDocument uri => uri

def isNotebook : Notification → Bool
  | .openNotebook .. | .changeNotebook .. | .saveNotebook _ | .closeNotebook .. => true
  | .openDocument _ | .changeDocument _ | .closeDocument _ => false

/-- It takes a token, since it may start a chain pass of its own. -/
def restarts : Notification → Bool
  | .openNotebook .. => true
  | .changeNotebook _ _ change => change.structural.isSome
  | _ => false

def isClose : Notification → Bool
  | .closeNotebook .. => true
  | _ => false

def isChange : Notification → Bool
  | .changeNotebook .. => true
  | _ => false

def About (n : Notification) (k : Key) : Prop := n.isNotebook = true ∧ Uri.key n.uri = .ok k

end Notification

namespace Hub

def ticket (h : Hub) (n : Notification) (k : Key) : Ticket where
  lock := if n.isNotebook then .notebook k else h.lockFor k
  token := if n.restarts then some (h.passes.supersede k).2 else none

theorem isSome_token_ticket (h : Hub) (n : Notification) (k : Key) :
    (h.ticket n k).token.isSome = n.restarts := by
  cases hr : n.restarts <;> simp [ticket, hr]

def passesAt (h : Hub) (n : Notification) (k : Key) : Passes :=
  if n.restarts then (h.passes.supersede k).1
  else if n.isClose then h.passes.forget k
  else h.passes

theorem supersede_on {uri : String} {k : Key} (hk : Uri.key uri = .ok k) (h : Hub) :
    (supersede uri).on h =
      ({ h with passes := (h.passes.supersede k).1 }, .ok (k, (h.passes.supersede k).2)) := by
  simp [supersede, Act.on_bind, Act.keyOf, hk, Except.map]

theorem takeTicket_on {n : Notification} {k : Key} (hk : Uri.key n.uri = .ok k) (h : Hub) :
    (takeTicket n).on h = ({ h with passes := h.passesAt n k }, .ok (h.ticket n k)) := by
  cases n with
  | openNotebook notebook items =>
    have hk : Uri.key notebook.uri = .ok k := hk
    rw [takeTicket, Act.on_bind, supersede_on hk]
    rfl
  | changeNotebook uri version change =>
    have hk : Uri.key uri = .ok k := hk
    cases hs : change.structural.isSome with
    | true =>
      simp only [takeTicket, hs, if_true, Act.on_bind, supersede_on hk]
      simp [ticket, passesAt, Notification.restarts, Notification.isNotebook, hs]
    | false =>
      simp [takeTicket, Act.keyOf, hk, hs, ticket, passesAt, Except.map, Notification.restarts,
        Notification.isNotebook, Notification.isClose]
  | saveNotebook uri =>
    have hk : Uri.key uri = .ok k := hk
    simp only [takeTicket, Act.keyOf, hk]
    rfl
  | closeNotebook uri cells =>
    have hk : Uri.key uri = .ok k := hk
    simp only [takeTicket, forget, Act.on_bind, Act.keyOf, hk]
    rfl
  | openDocument item =>
    have hk : Uri.key item.uri = .ok k := hk
    simp only [takeTicket, Act.on_bind, Act.keyOf, hk]
    rfl
  | changeDocument change =>
    have hk : Uri.key change.uri = .ok k := hk
    simp only [takeTicket, Act.on_bind, Act.keyOf, hk]
    rfl
  | closeDocument uri =>
    have hk : Uri.key uri = .ok k := hk
    simp only [takeTicket, Act.on_bind, Act.keyOf, hk]
    rfl

theorem takeTicket_on_error {n : Notification} {e : Uri.Error}
    (he : Uri.key n.uri = .error e) (h : Hub) :
    (takeTicket n).on h = (h, .error (.uri e)) := by
  cases n with
  | openNotebook notebook items =>
    have he : Uri.key notebook.uri = .error e := he
    simp [takeTicket, supersede, Act.on_bind, Act.keyOf, he]
  | changeNotebook uri version change =>
    have he : Uri.key uri = .error e := he
    unfold takeTicket
    dsimp only
    split <;> simp [supersede, Act.on_bind, Act.keyOf, he, Except.map]
  | saveNotebook uri =>
    have he : Uri.key uri = .error e := he
    simp [takeTicket, Act.keyOf, he, Except.map]
  | closeNotebook uri cells =>
    have he : Uri.key uri = .error e := he
    simp [takeTicket, forget, Act.on_bind, Act.keyOf, he]
  | openDocument item =>
    have he : Uri.key item.uri = .error e := he
    simp [takeTicket, Act.on_bind, Act.keyOf, he, Except.map]
  | changeDocument change =>
    have he : Uri.key change.uri = .error e := he
    simp [takeTicket, Act.on_bind, Act.keyOf, he, Except.map]
  | closeDocument uri =>
    have he : Uri.key uri = .error e := he
    simp [takeTicket, Act.on_bind, Act.keyOf, he, Except.map]

def passesAfter (h : Hub) (n : Notification) (lock : LockKey) : Passes :=
  match n, lock with
  | .changeNotebook .., .notebook key =>
    if (h.store.get? key).isSome then h.passes else h.passes.forget key
  | _, _ => h.passes

theorem conclude_eq (h : Hub) (n : Notification) (lock : LockKey) :
    h.conclude n lock = { h with passes := h.passesAfter n lock } := by
  unfold conclude
  split
  · rename_i key
    by_cases hopen : (h.store.get? key).isSome = true
    · simp [passesAfter, hopen]
    · simp [passesAfter, hopen]
  · simp [passesAfter]

end Hub
end NotebookHub
