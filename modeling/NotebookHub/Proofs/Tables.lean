import Mathlib.Data.List.Induction
import NotebookHub.Table

namespace NotebookHub.Table

variable {κ α : Type} [DecidableEq κ]

/-- A key has the one entry that is found under it. -/
theorem get?_eq_some_iff {t : Table κ α} {k : κ} {a : α} :
    t.get? k = some a ↔ (k, a) ∈ t.entries := by
  constructor
  · intro h
    obtain ⟨e, he, rfl⟩ := Option.map_eq_some_iff.mp h
    have hk : e.1 = k := by simpa using List.find?_some he
    exact hk ▸ List.mem_of_find?_eq_some he
  · intro h
    obtain ⟨entries, distinct⟩ := t
    simp only [get?] at h ⊢
    induction entries with
    | nil => simp at h
    | cons e es ih =>
      simp only [List.map_cons, List.nodup_cons] at distinct
      rcases List.mem_cons.mp h with rfl | hm
      · simp
      · have hne : e.1 ≠ k := fun he => distinct.1 (he ▸ List.mem_map_of_mem hm)
        simpa [hne] using ih distinct.2 hm

@[simp] theorem get?_modify (t : Table κ α) (k k' : κ) (f : α → α) :
    (t.modify k f).get? k' = if k = k' then (t.get? k').map f else t.get? k' := by
  unfold modify
  split
  · rename_i a ha
    by_cases h : k = k'
    · subst h
      simp [ha]
    · simp [h]
  · rename_i ha
    split
    · rename_i h
      simp [← h, ha]
    · rfl

/-- Writing what is there changes nothing. -/
theorem insert_self {t : Table κ α} {k : κ} {a : α} (h : t.get? k = some a) : t.insert k a = t := by
  obtain ⟨entries, distinct⟩ := t
  suffices hwrite : write k a entries = entries by simp only [insert, hwrite]
  have hm := get?_eq_some_iff.mp h
  clear h
  induction entries with
  | nil => simp at hm
  | cons e es ih =>
    simp only [List.map_cons, List.nodup_cons] at distinct
    rw [write]
    split
    · rename_i he
      rcases List.mem_cons.mp hm with rfl | hm
      · rfl
      · exact absurd (he ▸ List.mem_map_of_mem hm) distinct.1
    · rename_i he
      rcases List.mem_cons.mp hm with rfl | hm
      · exact absurd rfl he
      · rw [ih distinct.2 hm]

theorem map_write {β : Type} (f : α → β) (k : κ) (a : α) (es : List (κ × α)) :
    (write k a es).map (Prod.map id f) = write k (f a) (es.map (Prod.map id f)) := by
  induction es with
  | nil => rfl
  | cons e es ih =>
    by_cases he : e.1 = k
    · simp [write, he]
    · simp [write, he, ih]

theorem modify_self {t : Table κ α} {k : κ} {f : α → α} (h : ∀ a, t.get? k = some a → f a = a) :
    t.modify k f = t := by
  unfold modify
  split
  · rename_i a ha
    rw [h a ha]
    exact insert_self ha
  · rfl

theorem get?_filter (t : Table κ α) (p : κ → α → Bool) (k : κ) :
    (t.filter p).get? k = (t.get? k).filter (p k) := by
  ext a
  rw [get?_eq_some_iff, Option.filter_eq_some_iff, get?_eq_some_iff]
  exact List.mem_filter

omit [DecidableEq κ] in
theorem filter_filter (t : Table κ α) (p q : κ → α → Bool) :
    (t.filter p).filter q = t.filter fun k a => p k a && q k a := by
  simp only [filter, List.filter_filter, Bool.and_comm]

theorem filter_congr {t : Table κ α} {p q : κ → α → Bool}
    (h : ∀ k a, t.get? k = some a → p k a = q k a) : t.filter p = t.filter q := by
  have hentries : t.entries.filter (fun e => p e.1 e.2) = t.entries.filter fun e => q e.1 e.2 :=
    List.filter_congr fun e he => h e.1 e.2 (get?_eq_some_iff.mpr he)
  simp only [filter, hentries]

theorem filter_self {t : Table κ α} {p : κ → α → Bool}
    (h : ∀ k a, t.get? k = some a → p k a = true) :
    t.filter p = t := by
  have hentries : t.entries.filter (fun e => p e.1 e.2) = t.entries :=
    List.filter_eq_self.mpr fun e he => h e.1 e.2 (get?_eq_some_iff.mpr he)
  simp only [filter, hentries]

theorem erase_insert (t : Table κ α) (k : κ) (a : α) : (t.insert k a).erase k = t.erase k := by
  obtain ⟨entries, distinct⟩ := t
  suffices hrest : (write k a entries).filter (fun e => decide (e.1 ≠ k)) =
      entries.filter fun e => decide (e.1 ≠ k) by simp only [insert, erase, filter, hrest]
  clear distinct
  induction entries with
  | nil => simp [write]
  | cons e es ih =>
    rw [write]
    split
    · rename_i he
      simp [he]
    · simp only [List.filter_cons, ih]

/-- There is nothing to take out. -/
theorem erase_self {t : Table κ α} {k : κ} (h : t.get? k = none) : t.erase k = t := by
  refine filter_self fun k' a hfound => decide_eq_true ?_
  rintro rfl
  simp [h] at hfound

theorem eq_empty_of_get? {t : Table κ α} (h : ∀ k, t.get? k = none) : t = .empty := by
  obtain ⟨entries, distinct⟩ := t
  cases entries with
  | nil => rfl
  | cons e es =>
    have hfirst := h e.1
    simp [get?] at hfirst

theorem mem_values_iff {t : Table κ α} {a : α} : a ∈ t.values ↔ ∃ k, t.get? k = some a := by
  simp only [get?_eq_some_iff, values, List.mem_map, Prod.exists, exists_eq_right]

theorem ofList_snoc (es : List (κ × α)) (e : κ × α) :
    ofList (es ++ [e]) = (ofList es).insert e.1 e.2 := by
  simp [ofList]

theorem get?_ofList (es : List (κ × α)) (k : κ) :
    (ofList es).get? k = (es.reverse.find? (·.1 = k)).map Prod.snd := by
  induction es using List.reverseRecOn with
  | nil => rfl
  | append_singleton es e ih =>
    rw [ofList_snoc, get?_insert, ih, List.reverse_append, List.reverse_singleton,
      List.singleton_append, List.find?_cons]
    by_cases h : e.1 = k <;> simp [h]

theorem keys_insert (t : Table κ α) (k : κ) (a : α) :
    (t.insert k a).keys = if k ∈ t.keys then t.keys else t.keys ++ [k] := keys_write k a t.entries

/-- Keys stand in the order in which they first came. -/
theorem keys_ofList (es : List (κ × α)) : (ofList es).keys = (es.map Prod.fst).eraseDups := by
  induction es using List.reverseRecOn with
  | nil => rfl
  | append_singleton es e ih =>
    rw [ofList_snoc, keys_insert, ih, List.map_append, List.eraseDups_append]
    by_cases h : e.1 ∈ es.map Prod.fst <;> simp [h, List.removeAll, List.eraseDups_cons]

/-- The values under some of the keys, in the order of the keys. -/
theorem values_filter (t : Table κ α) (p : κ → Bool) :
    (t.filter fun k _ => p k).values = (t.keys.filter p).filterMap t.get? := by
  have hkeys : (t.filter fun k _ => p k).keys = t.keys.filter p := by
    simp [keys, filter, List.filter_map, Function.comp_def]
  have hfound : (t.filter fun k _ => p k).keys.map t.get? =
      (t.filter fun k _ => p k).values.map some := by
    simp only [keys, values, List.map_map]
    exact List.map_congr_left fun e he => get?_eq_some_iff.mpr (List.mem_filter.mp he).1
  calc (t.filter fun k _ => p k).values
      = ((t.filter fun k _ => p k).values.map some).filterMap id := by simp [List.filterMap_map]
    _ = (t.keys.filter p).filterMap t.get? := by
      rw [← hfound, hkeys, List.filterMap_map, Function.id_comp]

end NotebookHub.Table
