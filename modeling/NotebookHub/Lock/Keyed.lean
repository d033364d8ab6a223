import NotebookHub.Table

namespace NotebookHub

structure KeyedLock (κ ι : Type) where
  /-- The number of the lock that is up for a key. -/
  locks : Table κ Nat := .empty
  /-- How many came for a key and have not gone yet. -/
  users : Table κ Nat := .empty
  /-- The line at each lock that was ever put up. -/
  lines : List (List ι) := []

namespace KeyedLock

variable {κ ι : Type} [DecidableEq κ] [DecidableEq ι]

def size (l : KeyedLock κ ι) : Nat := l.locks.size

def line (l : KeyedLock κ ι) (n : Nat) : List ι := l.lines[n]?.getD []

def queue (l : KeyedLock κ ι) (k : κ) : List ι := ((l.locks.get? k).map l.line).getD []

def holder? (l : KeyedLock κ ι) (k : κ) : Option ι := (l.queue k).head?

/-- Comes for `k` and stands in line at its lock, which is put up if need be. Also the number of
this lock. -/
def enter (l : KeyedLock κ ι) (k : κ) (i : ι) : KeyedLock κ ι × Nat :=
  let users := l.users.insert k ((l.users.get? k).getD 0 + 1)
  match l.locks.get? k with
  | some n => ({ l with users, lines := l.lines.modify n (· ++ [i]) }, n)
  | none => (⟨l.locks.insert k l.lines.length, users, l.lines ++ [[i]]⟩, l.lines.length)

def acquire (l : KeyedLock κ ι) (k : κ) (i : ι) : KeyedLock κ ι := (l.enter k i).1

/-- One who came for `k` goes from its place in line at lock `n`. The last one takes the lock down,
if it is still the one that is up. -/
def withdraw (l : KeyedLock κ ι) (k : κ) (n : Nat) (go : List ι → List ι) : KeyedLock κ ι :=
  let lines := l.lines.modify n go
  let users := l.users.modify k (· - 1)
  if users.get? k = some 0 then
    { locks := if l.locks.get? k = some n then l.locks.erase k else l.locks,
      users := users.erase k, lines }
  else { l with users, lines }

def release (l : KeyedLock κ ι) (k : κ) (n : Nat) : KeyedLock κ ι := l.withdraw k n List.tail

def abandon (l : KeyedLock κ ι) (k : κ) (n : Nat) (i : ι) : KeyedLock κ ι :=
  l.withdraw k n (·.erase i)

def handOver (l : KeyedLock κ ι) (k : κ) : KeyedLock κ ι :=
  match l.locks.get? k with
  | some n => l.release k n
  | none => l

end KeyedLock
end NotebookHub
