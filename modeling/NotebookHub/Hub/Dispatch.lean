import NotebookHub.Hub.Handling
import NotebookHub.Lock.Keyed

namespace NotebookHub

inductive Progress
  /-- In line for its lock, or called to it but not yet begun. -/
  | queued
  /-- At the lookup of the first errand. -/
  | delivering (errands : List Errand)
  deriving DecidableEq, Repr

structure Handler where
  id : Nat
  notification : Notification
  ticket : Ticket
  progress : Progress

structure Dispatcher where
  hub : Hub := {}
  locks : KeyedLock LockKey Nat := {}
  /-- The handlers that have not ended, in the order of arrival. -/
  handlers : List Handler := []
  /-- How many notifications have arrived; also the number of the next handler. -/
  arrived : Nat := 0
  /-- The handlers that have ended, with what went wrong. -/
  ended : List (Nat × Option Fault) := []

inductive Event
  | arrive (n : Notification)
  | resume (handler : Nat)
  | shutdown

namespace Dispatcher

def handler? (d : Dispatcher) (id : Nat) : Option Handler := d.handlers.find? (·.id = id)

def isReady (d : Dispatcher) (x : Handler) : Bool :=
  x.progress = .queued && d.locks.holder? x.ticket.lock = some x.id

def atLookup (x : Handler) : Bool := x.progress ≠ .queued

def conclude (d : Dispatcher) (x : Handler) (fault : Option Fault) : Dispatcher :=
  { d with
    hub := d.hub.conclude x.notification x.ticket.lock
    locks := d.locks.handOver x.ticket.lock
    handlers := d.handlers.filter (·.id ≠ x.id)
    ended := d.ended ++ [(x.id, fault)] }

def settle (d : Dispatcher) (x : Handler) (errands : List Errand) : Dispatcher :=
  if errands.isEmpty then d.conclude x none
  else
    { d with
      handlers := d.handlers.map fun y =>
        if y.id = x.id then { y with progress := .delivering errands } else y }

def beginHandler (d : Dispatcher) (x : Handler) : Dispatcher :=
  match (Hub.begin x.notification x.ticket.token).on d.hub with
  | (hub, .error e) => { d with hub }.conclude x (some e)
  | (hub, .ok errands) =>
    let (hub, errands) := hub.proceed errands
    { d with hub }.settle x errands

/-- Runs a handler from where it stands; one that waits for its lock stays where it is. -/
def advance (d : Dispatcher) (id : Nat) : Dispatcher :=
  match d.handler? id with
  | none => d
  | some x =>
    match x.progress with
    | .queued => if d.isReady x then d.beginHandler x else d
    | .delivering errands =>
      let (hub, errands) := d.hub.resume errands
      { d with hub }.settle x errands

/-- Starts a handler: it gets its ticket at once, and begins at once if its lock is free. -/
def startHandler (d : Dispatcher) (n : Notification) : Dispatcher :=
  let id := d.arrived
  match (Hub.takeTicket n).on d.hub with
  | (hub, .error e) =>
    { d with hub, arrived := id + 1, ended := d.ended ++ [(id, some e)] }
  | (hub, .ok ticket) =>
    let x : Handler := { id, notification := n, ticket, progress := .queued }
    let d := { d with
      hub
      locks := d.locks.acquire ticket.lock id
      handlers := d.handlers ++ [x]
      arrived := id + 1 }
    if d.isReady x then d.beginHandler x else d

/-- Takes a notification in. A save needs no handler. -/
def arrive (d : Dispatcher) (n : Notification) : Dispatcher :=
  match n with
  | .saveNotebook uri => { d with hub := d.hub.note (.saveNotebook uri) }
  | n => d.startHandler n

def step (d : Dispatcher) : Event → Dispatcher
  | .arrive n => d.arrive n
  | .resume id => d.advance id
  | .shutdown => { d with hub := d.hub.shutdown }

def run (d : Dispatcher) (events : List Event) : Dispatcher := events.foldl step d

def isIdle (d : Dispatcher) : Bool := d.handlers.isEmpty

end Dispatcher
end NotebookHub
