import Mathlib.Data.List.Dedup
import Mathlib.Data.List.Nodup
import NotebookHub.Lock.Keyed
import NotebookHub.Proofs.Tables

namespace NotebookHub

namespace KeyedLock

variable {κ ι : Type} [DecidableEq κ]

/-- Where a lock is up somebody is in its line, all of them are counted, and for each key there is a
lock of its own. -/
structure Sound (l : KeyedLock κ ι) : Prop where
  up : ∀ k n, l.locks.get? k = some n → l.line n ≠ []
  apart : ∀ k k' n, l.locks.get? k = some n → l.locks.get? k' = some n → k = k'
  users : ∀ k, l.users.get? k = (l.locks.get? k).map fun n => (l.line n).length

structure SameLock (l m : KeyedLock κ ι) (k : κ) : Prop where
  locks : m.locks.get? k = l.locks.get? k
  users : m.users.get? k = l.users.get? k
  queue : m.queue k = l.queue k

theorem SameLock.refl (l : KeyedLock κ ι) (k : κ) : SameLock l l k := ⟨rfl, rfl, rfl⟩

theorem SameLock.trans {l m o : KeyedLock κ ι} {k : κ} (a : SameLock l m k) (b : SameLock m o k) :
    SameLock l o k :=
  ⟨b.locks.trans a.locks, b.users.trans a.users, b.queue.trans a.queue⟩

theorem sound_empty : ({} : KeyedLock κ ι).Sound where
  up _ _ h := by cases h
  apart _ _ _ h := by cases h
  users _ := rfl

variable {l : KeyedLock κ ι} {k k' : κ} {n : Nat}

theorem queue_eq (hn : l.locks.get? k = some n) : l.queue k = l.line n := by
  simp [queue, hn]

theorem queue_eq_nil (hn : l.locks.get? k = none) : l.queue k = [] := by
  simp [queue, hn]

omit [DecidableEq κ] in
/-- A lock is changed where its line is, and no other one. -/
theorem line_modify (hn : l.line n ≠ []) (f : List ι → List ι) (m : Nat) :
    (l.lines.modify n f)[m]?.getD [] = if n = m then f (l.line m) else l.line m := by
  rw [List.getElem?_modify]
  unfold line at hn ⊢
  by_cases hm : n = m
  · subst hm
    cases hl : l.lines[n]? with
    | none => simp [hl] at hn
    | some q => simp
  · simp [hm]

namespace Sound

/-- The lock of a key is up as long as somebody is in line. -/
theorem isSome_iff (hl : l.Sound) (k : κ) : (l.locks.get? k).isSome ↔ l.queue k ≠ [] := by
  cases hn : l.locks.get? k with
  | none => simp [queue, hn]
  | some n => simpa [queue, hn] using hl.up k n hn

/-- The users of a key are those in line. -/
theorem users_eq (hl : l.Sound) (k : κ) : (l.users.get? k).getD 0 = (l.queue k).length := by
  rw [hl.users k, queue]
  cases l.locks.get? k <;> rfl

theorem line_lt (hl : l.Sound) (hn : l.locks.get? k = some n) : n < l.lines.length := by
  by_contra h
  exact hl.up k n hn (by simp [line, List.getElem?_eq_none (Nat.le_of_not_lt h)])

/-- There is a lock for each key that somebody is in line for. -/
theorem size_eq (hl : l.Sound) {ks : List κ} (h : ∀ k, k ∈ ks ↔ l.queue k ≠ []) :
    l.size = ks.dedup.length := by
  have hup (k : κ) : k ∈ l.locks.keys ↔ (l.locks.get? k).isSome := by
    simp only [Option.isSome_iff_exists, Table.get?_eq_some_iff, Table.keys, List.mem_map,
      Prod.exists, exists_and_right, exists_eq_right]
  have hperm : l.locks.keys.Perm ks.dedup := by
    refine (List.perm_ext_iff_of_nodup l.locks.distinct ks.nodup_dedup).mpr fun k => ?_
    rw [List.mem_dedup, h]
    exact (hup k).trans (hl.isSome_iff k)
  rw [← hperm.length_eq, size, Table.size, Table.keys, List.length_map]

/-- A change at one key that leaves the others alone. -/
theorem of_elsewhere {m : KeyedLock κ ι} (hl : l.Sound) (hothers : ∀ k', k ≠ k' → SameLock l m k')
    (hup : ∀ n, m.locks.get? k = some n → m.line n ≠ [] ∧ ∀ k', l.locks.get? k' = some n → k = k')
    (husers : m.users.get? k = (m.locks.get? k).map fun n => (m.line n).length) : m.Sound := by
  have hlocks {k' : κ} (hk : k ≠ k') {n : Nat} (hn : m.locks.get? k' = some n) :
      l.locks.get? k' = some n ∧ m.line n = l.line n := by
    have hn' : l.locks.get? k' = some n := (hothers k' hk).locks.symm.trans hn
    exact ⟨hn', (queue_eq hn).symm.trans ((hothers k' hk).queue.trans (queue_eq hn'))⟩
  refine ⟨fun k' n hn => ?_, fun k₁ k₂ n h₁ h₂ => ?_, fun k' => ?_⟩
  · by_cases hk : k = k'
    · exact (hup n (hk ▸ hn)).1
    · obtain ⟨hn', hline⟩ := hlocks hk hn
      exact hline ▸ hl.up k' n hn'
  · by_cases hk₁ : k = k₁ <;> by_cases hk₂ : k = k₂
    · exact hk₁.symm.trans hk₂
    · exact absurd ((hup n (hk₁ ▸ h₁)).2 k₂ (hlocks hk₂ h₂).1) hk₂
    · exact absurd ((hup n (hk₂ ▸ h₂)).2 k₁ (hlocks hk₁ h₁).1) hk₁
    · exact hl.apart k₁ k₂ n (hlocks hk₁ h₁).1 (hlocks hk₂ h₂).1
  · by_cases hk : k = k'
    · exact hk ▸ husers
    · rw [(hothers k' hk).users, hl.users k', ← (hothers k' hk).locks]
      cases hn : m.locks.get? k' with
      | none => rfl
      | some n => rw [Option.map_some, Option.map_some, (hlocks hk hn).2]

end Sound

section Coming

variable {i : ι}

/-- Whoever comes stands in line at the lock that is up for the key. -/
theorem locks_acquire : (l.acquire k i).locks.get? k = some (l.enter k i).2 := by
  unfold acquire enter
  cases hn : l.locks.get? k with
  | none => simp
  | some n => simp [hn]

theorem enter_lock (hn : l.locks.get? k = some n) : (l.enter k i).2 = n := by
  simp [enter, hn]

/-- It stands behind all others. -/
theorem line_acquire (hl : l.Sound) : (l.acquire k i).line (l.enter k i).2 = l.queue k ++ [i] := by
  unfold acquire enter
  cases hn : l.locks.get? k with
  | none => simp [line, queue, hn]
  | some n =>
    rw [queue_eq hn]
    exact (line_modify (hl.up k n hn) (· ++ [i]) n).trans (if_pos rfl)

theorem acquire_elsewhere (hl : l.Sound) (hk : k ≠ k') : SameLock l (l.acquire k i) k' := by
  unfold acquire enter
  cases hn : l.locks.get? k with
  | none =>
    refine ⟨by simp [hk], by simp [hk], ?_⟩
    unfold queue line
    rw [Table.get?_insert, if_neg hk]
    cases hm : l.locks.get? k' with
    | none => rfl
    | some m => simp [List.getElem?_append_left (hl.line_lt hm)]
  | some n =>
    refine ⟨rfl, by simp [hk], ?_⟩
    cases hm : l.locks.get? k' with
    | none => simp [queue, hm]
    | some m =>
      have hne : n ≠ m := fun he => hk (hl.apart k k' n hn (he ▸ hm))
      simp only [queue, hm, Option.map_some, Option.getD_some]
      exact (line_modify (hl.up k n hn) (· ++ [i]) m).trans (if_neg hne)

theorem Sound.acquire (hl : l.Sound) (k : κ) (i : ι) : (l.acquire k i).Sound := by
  refine hl.of_elsewhere (k := k) (fun k' hk => acquire_elsewhere hl hk) (fun n hn => ?_) ?_
  · rw [locks_acquire] at hn
    obtain rfl := Option.some.inj hn
    refine ⟨by simp [line_acquire hl], fun k' hm => ?_⟩
    cases hn' : l.locks.get? k with
    | none =>
      have hlt := hl.line_lt hm
      simp [enter, hn'] at hlt
    | some n => exact hl.apart k k' n hn' (enter_lock hn' ▸ hm)
  · rw [locks_acquire, Option.map_some, line_acquire hl, List.length_append, ← hl.users_eq k]
    unfold KeyedLock.acquire enter
    cases l.locks.get? k <;> simp

theorem queue_acquire (hl : l.Sound) (k k' : κ) (i : ι) :
    (l.acquire k i).queue k' = if k = k' then l.queue k' ++ [i] else l.queue k' := by
  by_cases hk : k = k'
  · subst hk
    rw [if_pos rfl, queue_eq locks_acquire, line_acquire hl]
  · rw [if_neg hk, (acquire_elsewhere hl hk).queue]

end Coming

section Going

variable {go : List ι → List ι}

theorem line_withdraw (hl : l.Sound) (hn : l.locks.get? k = some n) (m : Nat) :
    (l.withdraw k n go).line m = if n = m then go (l.line m) else l.line m := by
  unfold withdraw
  dsimp only
  split <;> exact line_modify (hl.up k n hn) go m

theorem withdraw_elsewhere (hl : l.Sound) (hn : l.locks.get? k = some n) (hk : k ≠ k') :
    SameLock l (l.withdraw k n go) k' := by
  have hlocks : (l.withdraw k n go).locks.get? k' = l.locks.get? k' := by
    unfold withdraw
    dsimp only
    split
    · simp [hk]
    · rfl
  refine ⟨hlocks, ?_, ?_⟩
  · unfold withdraw
    dsimp only
    split <;> simp [hk]
  · cases hm : l.locks.get? k' with
    | none => rw [queue_eq_nil hm, queue_eq_nil (hlocks.trans hm)]
    | some m =>
      have hne : n ≠ m := fun he => hk (hl.apart k k' n hn (he ▸ hm))
      rw [queue_eq hm, queue_eq (hlocks.trans hm), line_withdraw hl hn, if_neg hne]

-- exactly one goes
variable (hl : l.Sound) (hn : l.locks.get? k = some n)
  (hgo : (go (l.line n)).length + 1 = (l.line n).length)

include hl hn hgo

/-- The count of users gets to zero when the last one goes. -/
theorem users_modify : (l.users.modify k (· - 1)).get? k = some (go (l.line n)).length := by
  rw [Table.get?_modify, if_pos rfl, hl.users k, hn, Option.map_some, Option.map_some, ← hgo,
    Nat.add_sub_cancel]

theorem locks_withdraw :
    (l.withdraw k n go).locks.get? k = if go (l.line n) = [] then none else some n := by
  simp only [withdraw, users_modify hl hn hgo, Option.some.injEq, List.length_eq_zero_iff]
  split
  · simp
  · exact hn

theorem users_withdraw :
    (l.withdraw k n go).users.get? k = if go (l.line n) = [] then none else some
    (go (l.line n)).length := by
  simp only [withdraw, users_modify hl hn hgo, Option.some.injEq, List.length_eq_zero_iff]
  split
  · simp
  · exact users_modify hl hn hgo

theorem queue_withdraw (k' : κ) :
    (l.withdraw k n go).queue k' = if k = k' then go (l.queue k') else l.queue k' := by
  by_cases hk : k = k'
  · subst hk
    have hlocks := locks_withdraw hl hn hgo
    rw [if_pos rfl, queue_eq hn]
    split at hlocks
    · rename_i hnil
      rw [queue_eq_nil hlocks, hnil]
    · rw [queue_eq hlocks, line_withdraw hl hn, if_pos rfl]
  · rw [if_neg hk, (withdraw_elsewhere hl hn hk).queue]

theorem Sound.withdraw : (l.withdraw k n go).Sound := by
  have hlocks := locks_withdraw hl hn hgo
  have husers := users_withdraw hl hn hgo
  have hline : (l.withdraw k n go).line n = go (l.line n) :=
    (line_withdraw hl hn n).trans (if_pos rfl)
  refine hl.of_elsewhere (fun k' hk => withdraw_elsewhere hl hn hk) (fun m hm => ?_) ?_
  · rw [hlocks] at hm
    split at hm
    · cases hm
    · rename_i hsome
      obtain rfl := Option.some.inj hm
      exact ⟨hline ▸ hsome, fun k' hm => hl.apart k k' n hn hm⟩
  · rw [husers, hlocks]
    split
    · rfl
    · rw [Option.map_some, hline]

end Going

theorem Sound.tail_length (hl : l.Sound) (hn : l.locks.get? k = some n) :
    (l.line n).tail.length + 1 = (l.line n).length := by
  have hpos := List.length_pos_iff.mpr (hl.up k n hn)
  rw [List.length_tail]
  omega

theorem Sound.handOver (hl : l.Sound) (k : κ) : (l.handOver k).Sound := by
  unfold KeyedLock.handOver
  cases hn : l.locks.get? k with
  | none => exact hl
  | some n => exact Sound.withdraw hl hn (hl.tail_length hn)

theorem queue_handOver (hl : l.Sound) (k k' : κ) :
    (l.handOver k).queue k' = if k = k' then (l.queue k').tail else l.queue k' := by
  unfold handOver
  cases hn : l.locks.get? k with
  | none =>
    by_cases hk : k = k'
    · rw [if_pos hk, ← hk, queue_eq_nil hn, List.tail_nil]
    · rw [if_neg hk]
  | some n => exact queue_withdraw hl hn (hl.tail_length hn) k'

end KeyedLock
end NotebookHub
