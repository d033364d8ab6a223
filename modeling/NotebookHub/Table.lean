namespace NotebookHub

/-- Entries with pairwise different keys, oldest key first. -/
structure Table (κ α : Type) where
  entries : List (κ × α) := []
  distinct : (entries.map Prod.fst).Nodup := by simp

namespace Table

variable {κ α β σ : Type}

def empty : Table κ α := {}

instance : Inhabited (Table κ α) := ⟨empty⟩

def keys (t : Table κ α) : List κ := t.entries.map Prod.fst
def values (t : Table κ α) : List α := t.entries.map Prod.snd
def size (t : Table κ α) : Nat := t.entries.length

def write [DecidableEq κ] (k : κ) (a : α) : List (κ × α) → List (κ × α)
  | [] => [(k, a)]
  | e :: es => if e.1 = k then (k, a) :: es else e :: write k a es

theorem keys_write [DecidableEq κ] (k : κ) (a : α) (es : List (κ × α)) :
    (write k a es).map Prod.fst =
      if k ∈ es.map Prod.fst then es.map Prod.fst else es.map Prod.fst ++ [k] := by
  induction es with
  | nil => simp [write]
  | cons e es ih =>
    by_cases h : e.1 = k
    · simp [write, h]
    · have h' : ¬ k = e.1 := fun he => h he.symm
      simp only [write, h, if_false, List.map_cons, ih, List.mem_cons, h', false_or]
      split <;> simp

theorem nodup_write [DecidableEq κ] {k : κ} {a : α} {es : List (κ × α)}
    (h : (es.map Prod.fst).Nodup) : ((write k a es).map Prod.fst).Nodup := by
  rw [keys_write]
  split
  · exact h
  · rename_i hk
    exact List.nodup_append.mpr ⟨h, by simp, by
      intro x hx y hy
      simp only [List.mem_singleton] at hy
      subst hy
      exact fun he => hk (he ▸ hx)⟩

def insert [DecidableEq κ] (t : Table κ α) (k : κ) (a : α) : Table κ α :=
  ⟨write k a t.entries, nodup_write t.distinct⟩

/-- The value written last under `k`, unless the key was erased since. -/
def get? [DecidableEq κ] (t : Table κ α) (k : κ) : Option α :=
  (t.entries.find? (·.1 = k)).map Prod.snd

def contains [DecidableEq κ] (t : Table κ α) (k : κ) : Bool := (t.get? k).isSome

def filter (t : Table κ α) (p : κ → α → Bool) : Table κ α :=
  ⟨t.entries.filter fun e => p e.1 e.2,
   t.distinct.sublist (List.Sublist.map Prod.fst List.filter_sublist)⟩

def erase [DecidableEq κ] (t : Table κ α) (k : κ) : Table κ α := t.filter fun k' _ => k' ≠ k

def modify [DecidableEq κ] (t : Table κ α) (k : κ) (f : α → α) : Table κ α :=
  match t.get? k with
  | some a => t.insert k (f a)
  | none => t

/-- Passes a running state through the values in order, replacing each. -/
def passThrough (f : σ → α → σ × α) : σ → List (κ × α) → σ × List (κ × α)
  | s, [] => (s, [])
  | s, e :: es =>
    let (s, a) := f s e.2
    let (s, rest) := passThrough f s es
    (s, (e.1, a) :: rest)

theorem keys_passThrough (f : σ → α → σ × α) (s : σ) (es : List (κ × α)) :
    (passThrough f s es).2.map Prod.fst = es.map Prod.fst := by
  induction es generalizing s with
  | nil => rfl
  | cons e es ih => simp [passThrough, ih]

def visit (t : Table κ α) (f : σ → α → σ × α) (s : σ) : σ × Table κ α :=
  ((passThrough f s t.entries).1,
   ⟨(passThrough f s t.entries).2, by rw [keys_passThrough]; exact t.distinct⟩)

def ofList [DecidableEq κ] (es : List (κ × α)) : Table κ α :=
  es.foldl (fun t e => t.insert e.1 e.2) empty

theorem find?_write [DecidableEq κ] (k k' : κ) (a : α) (es : List (κ × α)) :
    ((write k a es).find? (·.1 = k')).map Prod.snd =
      if k = k' then some a else (es.find? (·.1 = k')).map Prod.snd := by
  induction es with
  | nil => by_cases h : k = k' <;> simp [write, h]
  | cons e es ih =>
    by_cases hk : e.1 = k
    · by_cases h : k = k'
      · simp [write, hk, h]
      · have he : ¬ e.1 = k' := fun x => h (hk.symm.trans x)
        simp [write, hk, h]
    · by_cases h : k = k'
      · subst h
        simpa [write, hk] using ih
      · simp only [write, hk, if_false, List.find?_cons]
        by_cases he : e.1 = k'
        · simp [he, h]
        · simpa [he, h] using ih

@[simp] theorem get?_insert [DecidableEq κ] (t : Table κ α) (k k' : κ) (a : α) :
    (t.insert k a).get? k' = if k = k' then some a else t.get? k' :=
  find?_write k k' a t.entries

@[simp] theorem get?_empty [DecidableEq κ] (k : κ) : (empty : Table κ α).get? k = none := rfl

@[simp] theorem get?_erase [DecidableEq κ] (t : Table κ α) (k k' : κ) :
    (t.erase k).get? k' = if k = k' then none else t.get? k' := by
  simp only [erase, filter, get?, List.find?_filter]
  by_cases h : k = k'
  · subst h
    simp
  · simp only [if_neg h]
    congr 2
    funext e
    by_cases he : e.1 = k'
    · simpa [he] using Ne.symm h
    · simp [he]

end Table
end NotebookHub
