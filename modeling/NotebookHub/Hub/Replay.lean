import NotebookHub.Hub.Handling
import NotebookHub.Hub.Report
import NotebookHub.Notification.Decode
import NotebookHub.Recording

namespace NotebookHub

/-- Why an event was passed over; events count from zero. -/
inductive PassedOver
  | unsupported (index : Nat) (method : String)
  | invalid (index : Nat) (method : String)
  deriving DecidableEq, Repr

def PassedOver.message : PassedOver → String
  | .unsupported i method => "event " ++ toString i ++ ": unsupported method " ++ method
  | .invalid i method => "event " ++ toString i ++ ": invalid " ++ method ++ " params"

structure ReplayReport where
  events : Nat
  notebooks : List NotebookReport
  errors : List PassedOver

def Recording.Event.notification (e : Event) (index : Nat) : Except PassedOver Notification :=
  match Notification.Method.ofName? e.method with
  | none => .error (.unsupported index e.method)
  | some m =>
    match m.read (.obj e.params) with
    | none => .error (.invalid index e.method)
    | some n => .ok n

namespace Hub

def handleEvents (h : Hub) (n : Nat) : List Recording.Event → Hub × Except Fault (List PassedOver)
  | [] => (h, .ok [])
  | e :: es =>
    match e.notification n with
    | .error err =>
      let (h, r) := h.handleEvents (n + 1) es
      (h, r.map (err :: ·))
    | .ok event =>
      match h.handle event with
      | (h, some fault) => (h, .error fault)
      | (h, none) => h.handleEvents (n + 1) es

def replay (h : Hub) (events : List Recording.Event) : Hub × Except Fault ReplayReport :=
  match h.handleEvents 0 events with
  | (h, .error fault) => (h, .error fault)
  | (h, .ok errors) =>
    match h.store.notebooks.values.mapM fun n => h.report n.uri with
    | .error fault => (h, .error fault)
    | .ok notebooks => (h, .ok ⟨events.length, notebooks, errors⟩)

end Hub
end NotebookHub
