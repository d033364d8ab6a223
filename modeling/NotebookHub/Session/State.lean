import NotebookHub.Hub.Dispatch

namespace NotebookHub

inductive Parcel
  | kept (notice : Nat)
  | own (e : Errand)
  deriving DecidableEq, Repr

inductive Wanted
  | nothing
  /-- How many notices were good. -/
  | delivered
  /-- How many cells the pass published, if it came to its end. -/
  | published
  deriving DecidableEq, Repr

structure Delivery where
  id : Nat
  parcels : List Parcel
  wanted : Wanted
  delivered : Nat := 0
  published : Option Nat := none
  deriving DecidableEq, Repr

def Delivery.answer (d : Delivery) : Option Nat :=
  match d.wanted with
  | .nothing => none
  | .delivered => some d.delivered
  | .published => d.published

inductive Waiter
  | handler (id : Nat)
  | delivery (id : Nat)
  deriving DecidableEq, Repr

structure Session where
  dispatcher : Dispatcher := {}
  gateClosed : Bool := false
  /-- The lookups that wait at the gate, oldest first. -/
  queue : List Waiter := []
  deliveries : List Delivery := []
  /-- The notices that the session keeps, each as its latest delivery left it. -/
  kept : Table Nat Notice := .empty
  /-- The names of registrations, and the notice that each left, if any. -/
  named : Table String (Option Nat) := .empty
  tokens : Table String Token := .empty
  /-- The numbers under which the session started its handlers. -/
  labels : Table Nat Nat := .empty
  /-- The deliveries that have ended since the last look. -/
  answered : List (Nat × Except Fault (Option Nat)) := []

namespace Session

def hub (s : Session) : Hub := s.dispatcher.hub

def setHub (s : Session) (hub : Hub) : Session :=
  { s with dispatcher := { s.dispatcher with hub } }

def settleDelivery (s : Session) (d : Delivery) : List Parcel → Session
  | [] =>
    { s with
      deliveries := s.deliveries.filter (·.id ≠ d.id)
      answered := s.answered ++ [(d.id, .ok d.answer)] }
  | p :: rest =>
    match p with
    | .own (.publish ⟨notebook, _, [], total⟩) =>
      (s.setHub (s.hub.note (.passPublished notebook total))).settleDelivery
        { d with published := some total } rest
    | p =>
      { s with
        deliveries := s.deliveries.map fun x =>
          if x.id = d.id then { d with parcels := p :: rest } else x }

def resumeDelivery (s : Session) (d : Delivery) : Session :=
  let counted (ok : Bool) : Delivery :=
    if ok then { d with delivered := d.delivered + 1 } else d
  match d.parcels with
  | [] => s.settleDelivery d []
  | .kept id :: rest =>
    match s.kept.get? id with
    | none => s.settleDelivery d rest
    | some notice =>
      let (hub, notice, ok) := s.hub.deliver notice
      ({ s with kept := s.kept.insert id notice }.setHub hub).settleDelivery (counted ok) rest
  | .own (.notice n) :: rest =>
    let (hub, _, ok) := s.hub.deliver n
    (s.setHub hub).settleDelivery (counted ok) rest
  | .own e :: rest =>
    let (hub, left) := s.hub.perform e
    (s.setHub hub).settleDelivery d (left.toList.map .own ++ rest)

def resume (s : Session) : Waiter → Session
  | .handler id => { s with dispatcher := s.dispatcher.advance id }
  | .delivery id =>
    match s.deliveries.find? (·.id = id) with
    | some d => s.resumeDelivery d
    | none => s

def waiters (s : Session) : List Waiter :=
  (s.dispatcher.handlers.filter Dispatcher.atLookup).map (.handler ·.id) ++
    s.deliveries.map (.delivery ·.id)

def lookups (s : Session) : Nat :=
  let errands := s.dispatcher.handlers.flatMap fun x =>
    match x.progress with
    | .queued => []
    | .delivering errands => errands
  let parcels := s.deliveries.flatMap Delivery.parcels
  Hub.lookups errands + parcels.foldr (fun p n => n + match p with
    | .kept _ => 1
    | .own e => e.lookups) 0

def runOut (w : Waiter) : (fuel : Nat) → Session → Session
  | 0, s => s
  | fuel + 1, s => if w ∈ s.waiters then runOut w fuel (s.resume w) else s

/-- Lets everything run until nothing can: a handler that got its lock begins, and one that comes to
a lookup passes an open gate or queues at a closed one. -/
def settle : (fuel : Nat) → Session → Session
  | 0, s => s
  | fuel + 1, s =>
    match s.dispatcher.handlers.find? s.dispatcher.isReady with
    | some x => settle fuel { s with dispatcher := s.dispatcher.advance x.id }
    | none =>
      match s.waiters.find? (· ∉ s.queue) with
      | some w =>
        if s.gateClosed then settle fuel { s with queue := s.queue ++ [w] }
        else settle fuel (runOut w s.lookups s)
      | none => s

def run (s : Session) : Session :=
  settle (2 * s.dispatcher.handlers.length + s.deliveries.length + 1) s

def releaseOne (s : Session) : Session :=
  match s.queue with
  | [] => s
  | w :: rest => ({ s with queue := rest }.resume w).run

def release : (count : Nat) → Session → Session
  | 0, s => s
  | count + 1, s => if s.queue.isEmpty then s else release count s.releaseOne

def closeGate (s : Session) : Session := { s with gateClosed := true }

/-- Opens the gate and releases all that waits at it; nobody joins the queue meanwhile. -/
def openGate (s : Session) : Session :=
  release s.queue.length { s with gateClosed := false }

def notify (s : Session) (label : Nat) (n : Notification) : Session :=
  let labels := s.labels.insert s.dispatcher.arrived label
  { s with dispatcher := s.dispatcher.arrive n, labels }.run

def startDelivery (s : Session) (label : Nat) (parcels : List Parcel) (wanted : Wanted) : Session :=
  let d : Delivery := { id := label, parcels, wanted }
  ({ s with deliveries := s.deliveries ++ [d] }.settleDelivery d parcels).run

def keep (s : Session) (name : String) : Option Notice → Session
  | none => { s with named := s.named.insert name none }
  | some notice =>
    { s with
      kept := s.kept.insert s.kept.size notice
      named := s.named.insert name (some s.kept.size) }

def publish (s : Session) (label : Nat) (names : List String) : Session :=
  let ids := names.filterMap fun name => (s.named.get? name).join
  s.startDelivery label (ids.map .kept) .delivered

def link (s : Session) (label : Nat) (uri : String) (token : Token) : Session :=
  match (Hub.stage uri token).on s.hub with
  | (hub, .error e) => { s.setHub hub with answered := s.answered ++ [(label, .error e)] }
  | (hub, .ok links) =>
    (s.setHub hub).startDelivery label ((Hub.passErrand uri token links).map .own) .published

def applyStructure (s : Session) (label : Nat) (uri : String) (token : Option Token)
    (change : StructureChange) : Session × Except Fault Hub.StructuralUpdate :=
  let act : Act Hub.StructuralUpdate := do
    let (key, notebook) ← Hub.requireNotebook uri "apply"
    Hub.applyStructure key notebook change token
  match act.on s.hub with
  | (hub, .error e) => (s.setHub hub, .error e)
  | (hub, .ok update) =>
    ((s.setHub hub).startDelivery label (update.errands.map .own) .nothing, .ok update)

structure News where
  calls : List Call
  journal : List Note
  /-- Handlers that ended, under the numbers that they were started with. -/
  handled : List (Nat × Option Fault)
  answered : List (Nat × Except Fault (Option Nat))

def news (s : Session) : News × Session :=
  let handled := s.dispatcher.ended.map fun (id, fault) => ((s.labels.get? id).getD id, fault)
  (⟨s.hub.calls, s.hub.journal, handled, s.answered⟩,
    { s with
      dispatcher := { s.dispatcher with
        hub := { s.hub with calls := [], journal := [] }
        ended := [] }
      answered := [] })

end Session
end NotebookHub
