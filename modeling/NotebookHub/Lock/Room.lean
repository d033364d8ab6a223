import NotebookHub.Lock.Keyed

namespace NotebookHub

structure Visitor (κ ι : Type) where
  id : ι
  key : κ
  /-- The lock in whose line it stands. -/
  lock : Nat
  deriving DecidableEq, Repr

structure LockRoom (κ ι : Type) where
  lock : KeyedLock κ ι := {}
  /-- Those inside, in the order of entry. -/
  inside : List (Visitor κ ι) := []
  /-- Those who wait, in the order of arrival. -/
  waiting : List (Visitor κ ι) := []
  /-- Those who are to leave as soon as they get in. -/
  leaving : List ι := []

namespace LockRoom

variable {κ ι : Type} [DecidableEq κ] [DecidableEq ι]

/-- Whoever comes for `k` comes to the lock that is up for it, or is put up now. -/
def newcomer (r : LockRoom κ ι) (i : ι) (k : κ) : Visitor κ ι := ⟨i, k, (r.lock.enter k i).2⟩

def arrive (r : LockRoom κ ι) (i : ι) (k : κ) : LockRoom κ ι :=
  let v := r.newcomer i k
  let lock := r.lock.acquire k i
  if (lock.line v.lock).head? = some i then { r with lock, inside := r.inside ++ [v] }
  else { r with lock, waiting := r.waiting ++ [v] }

/-- Lets the first in line at lock `n` in, and out again while it is one that is to leave. -/
def callIn (r : LockRoom κ ι) (n : Nat) : (fuel : Nat) → LockRoom κ ι
  | 0 => r
  | fuel + 1 =>
    match r.waiting.find? fun v => (r.lock.line n).head? = some v.id with
    | none => r
    | some v =>
      let r := { r with waiting := r.waiting.filter (·.id ≠ v.id) }
      if v.id ∈ r.leaving then
        callIn
          { r with lock := r.lock.release v.key v.lock, leaving := r.leaving.filter (· ≠ v.id) }
          n fuel
      else { r with inside := r.inside ++ [v] }

/-- One inside goes out; it makes no difference whether its stay went well. -/
def goOut (r : LockRoom κ ι) (v : Visitor κ ι) : LockRoom κ ι :=
  callIn
    { r with lock := r.lock.release v.key v.lock, inside := r.inside.filter (·.id ≠ v.id) } v.lock
    (r.waiting.length + 1)

def dismiss (r : LockRoom κ ι) (i : ι) : LockRoom κ ι :=
  match r.inside.find? (·.id = i) with
  | some v => r.goOut v
  | none =>
    if r.waiting.any (·.id = i) then { r with leaving := r.leaving ++ [i] } else r

def cancel (r : LockRoom κ ι) (i : ι) : LockRoom κ ι :=
  match r.inside.find? (·.id = i) with
  | some v => r.goOut v
  | none =>
    match r.waiting.find? (·.id = i) with
    | some v =>
      { r with
        lock := r.lock.abandon v.key v.lock i
        waiting := r.waiting.filter (·.id ≠ i)
        leaving := r.leaving.filter (· ≠ i) }
    | none => r

end LockRoom
end NotebookHub
