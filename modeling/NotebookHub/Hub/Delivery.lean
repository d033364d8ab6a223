import NotebookHub.Hub.Registration

namespace NotebookHub

/-- A chain pass that is being published: the links still to go out, and how many there were. -/
structure ChainPass where
  notebook : String
  token : Token
  links : List Link
  total : Nat
  deriving DecidableEq, Repr

inductive Errand
  | notice (n : Notice)
  | publish (p : ChainPass)
  deriving DecidableEq, Repr

def Errand.lookups : Errand → Nat
  | .notice _ => 1
  | .publish p => p.links.length

namespace Hub

/-- Delivers a notice: the notice as the owners left it, and whether it was still good. An opened or
changed document that was closed since is not spoken of. -/
def deliver (h : Hub) (n : Notice) : Hub × Notice × Bool :=
  match n with
  | .closed a => ((h.tellOwners (.closed a)).1, n, true)
  | .opened a life version text mode predecessor =>
    if h.documents.isCurrent a.key life then
      ((h.tellOwners (.opened a version text mode predecessor)).1, n, true)
    else (h.note (.noticeDropped a.uri), n, false)
  | .changed a life edits version =>
    if h.documents.isCurrent a.key life then
      match h.tellOwners (.changed a edits version) with
      | (h, .changed _ settled _) => (h, .changed a life settled version, true)
      | (h, _) => (h, n, true)
    else (h.note (.noticeDropped a.uri), n, false)

/-- One lookup's worth of work, and what is left of the errand. A pass that a newer one superseded
ends without another word. -/
def perform (h : Hub) (e : Errand) : Hub × Option Errand :=
  match e with
  | .notice n => ((h.deliver n).1, none)
  | .publish p =>
    match p.links with
    | [] => (h, none)
    | l :: rest =>
      if h.passes.isCurrent p.token then
        ((h.tellOwners (.linked l.cell l.predecessor)).1, some (.publish { p with links := rest }))
      else (h.note (.passSuperseded p.notebook), none)

/-- Ends the passes in front that have no cell left; that takes no lookup. -/
def proceed (h : Hub) : List Errand → Hub × List Errand
  | [] => (h, [])
  | e :: errands =>
    match e with
    | .publish ⟨notebook, _, [], total⟩ => (h.note (.passPublished notebook total)).proceed errands
    | e => (h, e :: errands)

def resume (h : Hub) : List Errand → Hub × List Errand
  | [] => (h, [])
  | e :: errands =>
    let (h, left) := h.perform e
    h.proceed (left.toList ++ errands)

/-- Runs errands to their end, lookup after lookup, for at most `fuel` lookups. -/
def finish : (fuel : Nat) → Hub → List Errand → Hub
  | 0, h, _ => h
  | fuel + 1, h, errands =>
    let (h, errands) := h.resume errands
    finish fuel h errands

def lookups (errands : List Errand) : Nat := errands.foldr (·.lookups + ·) 0

def deliverAll (h : Hub) (errands : List Errand) : Hub :=
  let (h, errands) := h.proceed errands
  finish (lookups errands) h errands

end Hub
end NotebookHub
