import Mathlib.Data.List.Nodup
import NotebookHub.Lock.Room
import NotebookHub.Proofs.Locks

namespace NotebookHub

namespace LockRoom

variable {κ ι : Type}

def present (r : LockRoom κ ι) : List (Visitor κ ι) := r.inside ++ r.waiting

section Lines

variable [DecidableEq κ]

def forKey (k : κ) (vs : List (Visitor κ ι)) : List (Visitor κ ι) := vs.filter (·.key = k)

theorem mem_forKey {k : κ} {vs : List (Visitor κ ι)} {v : Visitor κ ι} :
    v ∈ forKey k vs ↔ v ∈ vs ∧ v.key = k := by
  simp [forKey]

@[simp] theorem forKey_nil (k : κ) : forKey k ([] : List (Visitor κ ι)) = [] := rfl

@[simp] theorem forKey_append (k : κ) (vs ws : List (Visitor κ ι)) :
    forKey k (vs ++ ws) = forKey k vs ++ forKey k ws :=
  List.filter_append ..

@[simp] theorem forKey_single (k : κ) (v : Visitor κ ι) :
    forKey k [v] = if v.key = k then [v] else [] := by
  by_cases hv : v.key = k <;> simp [forKey, hv]

theorem forKey_filter (k : κ) (p : Visitor κ ι → Bool) (vs : List (Visitor κ ι)) :
    forKey k (vs.filter p) = (forKey k vs).filter p := by
  simp only [forKey, List.filter_filter, Bool.and_comm]

/-- The lines of the lock are those of the visitors, who stand at the locks that are up. -/
structure Lined (r : LockRoom κ ι) : Prop where
  ids : (r.present.map Visitor.id).Nodup
  locks : r.lock.Sound
  numbers : ∀ v ∈ r.present, r.lock.locks.get? v.key = some v.lock
  queue : ∀ k, r.lock.queue k = (forKey k r.present).map Visitor.id
  single : ∀ k, (forKey k r.inside).length ≤ 1
  leaving : ∀ i ∈ r.leaving, i ∈ r.waiting.map Visitor.id

structure Settled (r : LockRoom κ ι) : Prop extends Lined r where
  held : ∀ v ∈ r.waiting, forKey v.key r.inside ≠ []

/-- The one who was inside for `k`, at lock `n`, is gone, and nobody was called in yet. -/
structure Vacant (r : LockRoom κ ι) (k : κ) (n : Nat) : Prop extends Lined r where
  vacant : forKey k r.inside = []
  line : r.lock.line n = r.lock.queue k
  up : ∀ m, r.lock.locks.get? k = some m → m = n
  held : ∀ v ∈ r.waiting, v.key ≠ k → forKey v.key r.inside ≠ []

/-- All who came for `k` are where they were, and so is their lock. -/
structure SameAt (r g : LockRoom κ ι) (k : κ) : Prop where
  inside : forKey k g.inside = forKey k r.inside
  waiting : forKey k g.waiting = forKey k r.waiting
  lock : r.lock.SameLock g.lock k
  leaving : ∀ v ∈ forKey k r.waiting, v.id ∈ g.leaving ↔ v.id ∈ r.leaving

theorem SameAt.refl (r : LockRoom κ ι) (k : κ) : SameAt r r k :=
  ⟨rfl, rfl, .refl _ k, fun _ _ => .rfl⟩

theorem SameAt.trans {r g h : LockRoom κ ι} {k : κ} (a : SameAt r g k) (b : SameAt g h k) :
    SameAt r h k :=
  ⟨b.inside.trans a.inside, b.waiting.trans a.waiting, a.lock.trans b.lock, fun v hv =>
    (b.leaving v (a.waiting ▸ hv)).trans (a.leaving v hv)⟩

theorem settled_start : ({} : LockRoom κ ι).Settled where
  ids := .nil
  locks := KeyedLock.sound_empty
  numbers _ hv := by cases hv
  queue _ := rfl
  single _ := Nat.zero_le 1
  leaving := by simp
  held := by simp

variable {r : LockRoom κ ι}

namespace Lined

theorem waiting_ids (hr : r.Lined) : (r.waiting.map Visitor.id).Nodup :=
  hr.ids.sublist ((List.sublist_append_right r.inside r.waiting).map Visitor.id)

theorem inside_ids (hr : r.Lined) : (r.inside.map Visitor.id).Nodup :=
  hr.ids.sublist ((List.sublist_append_left r.inside r.waiting).map Visitor.id)

/-- Who is inside does not wait. -/
theorem ne_of_inside (hr : r.Lined) {v w : Visitor κ ι} (hv : v ∈ r.inside) (hw : w ∈ r.waiting) :
    v.id ≠ w.id := by
  have hids := hr.ids
  rw [present, List.map_append] at hids
  exact fun he =>
    List.disjoint_of_nodup_append hids (List.mem_map_of_mem hv) (he ▸ List.mem_map_of_mem hw)

/-- Who waits for another key is another. -/
theorem ne_of_key (hr : r.Lined) {v w : Visitor κ ι} (hv : v ∈ r.waiting) (hw : w ∈ r.waiting)
    (hk : v.key ≠ w.key) : w.id ≠ v.id :=
  fun he => hk (List.inj_on_of_nodup_map hr.waiting_ids hw hv he ▸ rfl)

theorem alone (hr : r.Lined) {v : Visitor κ ι} (hv : v ∈ r.inside) :
    forKey v.key r.inside = [v] := by
  have hm : v ∈ forKey v.key r.inside := mem_forKey.mpr ⟨hv, rfl⟩
  obtain ⟨w, hw⟩ :=
    List.length_eq_one_iff.mp (Nat.le_antisymm (hr.single v.key) (List.length_pos_of_mem hm))
  rw [hw] at hm ⊢
  rw [List.mem_singleton.mp hm]

end Lined

/-- The lock of a key is held by the one who is inside. -/
theorem Settled.holder?_eq (hr : r.Settled) (k : κ) :
    (r.lock.holder? k).toList = (forKey k r.inside).map Visitor.id := by
  rw [KeyedLock.holder?, hr.queue, present, forKey_append]
  rcases hin : forKey k r.inside with _ | ⟨v, vs⟩
  · have hnone : forKey k r.waiting = [] := by
      refine List.eq_nil_iff_forall_not_mem.mpr fun w hw => ?_
      obtain ⟨hwaits, rfl⟩ := mem_forKey.mp hw
      exact hr.held w hwaits hin
    rw [hnone]
    rfl
  · obtain ⟨hv, rfl⟩ := mem_forKey.mp (hin ▸ List.mem_cons_self : v ∈ forKey k r.inside)
    rw [← hin, hr.alone hv]
    rfl

theorem Lined.size_eq (hr : r.Lined) : r.lock.size = (r.present.map Visitor.key).dedup.length := by
  refine hr.locks.size_eq fun k => ?_
  rw [hr.queue, Ne, List.map_eq_nil_iff, List.eq_nil_iff_forall_not_mem, not_forall]
  simp [mem_forKey]

/-- The users of a key are its visitors. -/
theorem Lined.users_eq (hr : r.Lined) {v : Visitor κ ι} (hv : v ∈ r.present) :
    r.lock.users.get? v.key = some (forKey v.key r.present).length := by
  have hn := hr.numbers v hv
  rw [hr.locks.users v.key, hn, Option.map_some, ← KeyedLock.queue_eq hn, hr.queue, List.length_map]

end Lines

variable [DecidableEq ι]

theorem perm_without {vs : List (Visitor κ ι)} (hids : (vs.map Visitor.id).Nodup) {v : Visitor κ ι}
    (hv : v ∈ vs) : vs.Perm (v :: vs.filter (·.id ≠ v.id)) := by
  have hrest : (v :: vs.filter (·.id ≠ v.id)).Nodup :=
    List.nodup_cons.mpr ⟨by simp, (List.Nodup.of_map _ hids).filter _⟩
  refine (List.perm_ext_iff_of_nodup (List.Nodup.of_map _ hids) hrest).mpr fun w => ?_
  rw [List.mem_cons, List.mem_filter, decide_eq_true_iff]
  constructor
  · intro hw
    by_cases he : w.id = v.id
    · exact .inl (List.inj_on_of_nodup_map hids hw hv he)
    · exact .inr ⟨hw, he⟩
  · rintro (rfl | ⟨hw, _⟩)
    · exact hv
    · exact hw

theorem mem_ids_without {vs : List (Visitor κ ι)} {i j : ι} :
    j ∈ (vs.filter (·.id ≠ i)).map Visitor.id ↔ j ∈ vs.map Visitor.id ∧ j ≠ i := by
  simp only [List.mem_map, List.mem_filter, decide_eq_true_iff]
  constructor
  · rintro ⟨w, ⟨hw, hne⟩, rfl⟩
    exact ⟨⟨w, hw, rfl⟩, hne⟩
  · rintro ⟨⟨w, hw, rfl⟩, hne⟩
    exact ⟨w, ⟨hw, hne⟩, rfl⟩

theorem find?_id {vs : List (Visitor κ ι)} {v : Visitor κ ι} {i : ι}
    (h : vs.find? (·.id = i) = some v) :
    v ∈ vs ∧ v.id = i :=
  ⟨List.mem_of_find?_eq_some h, by simpa using List.find?_some h⟩

theorem not_mem_ids_of_find? {vs : List (Visitor κ ι)} {i : ι} (h : vs.find? (·.id = i) = none) :
    i ∉ vs.map Visitor.id := by
  intro hm
  obtain ⟨v, hv, rfl⟩ := List.mem_map.mp hm
  simpa using List.find?_eq_none.mp h v hv

variable [DecidableEq κ]

/-- Who leaves was there for one key only. -/
theorem forKey_without_other {vs : List (Visitor κ ι)} (hids : (vs.map Visitor.id).Nodup)
    {v : Visitor κ ι}
    (hv : v ∈ vs) {k : κ} (hk : v.key ≠ k) : forKey k (vs.filter (·.id ≠ v.id)) = forKey k vs := by
  rw [forKey_filter]
  refine List.filter_eq_self.mpr fun w hw => ?_
  obtain ⟨hmem, rfl⟩ := mem_forKey.mp hw
  exact decide_eq_true fun he => hk (List.inj_on_of_nodup_map hids hmem hv he ▸ rfl)

/-- The first who waits for a key leaves the others behind. -/
theorem forKey_without_first {vs : List (Visitor κ ι)} (hids : (vs.map Visitor.id).Nodup) {k : κ}
    {v : Visitor κ ι} {rest : List (Visitor κ ι)} (hline : forKey k vs = v :: rest) :
    forKey k (vs.filter (·.id ≠ v.id)) = rest := by
  have hnodup : ((v :: rest).map Visitor.id).Nodup := by
    rw [← hline]
    exact hids.sublist (List.filter_sublist.map Visitor.id)
  rw [List.map_cons, List.nodup_cons] at hnodup
  rw [forKey_filter, hline, List.filter_cons_of_neg (by simp)]
  exact List.filter_eq_self.mpr fun w hw =>
    decide_eq_true fun he : w.id = v.id => hnodup.1 (he ▸ List.mem_map_of_mem hw)

structure Without (r : LockRoom κ ι) (v : Visitor κ ι) (l : KeyedLock κ ι) : Prop where
  locks : l.Sound
  numbers : ∀ w ∈ r.present.filter (·.id ≠ v.id), l.locks.get? w.key = some w.lock
  queue : ∀ k, l.queue k = (forKey k (r.present.filter (·.id ≠ v.id))).map Visitor.id
  line : l.line v.lock = l.queue v.key
  up : ∀ n, l.locks.get? v.key = some n → n = v.lock

/-- One who goes is missed in its own line only, and those who still stand there find the lock where
it was. -/
theorem Lined.without {r : LockRoom κ ι} (hr : r.Lined) {v : Visitor κ ι} (hv : v ∈ r.present)
    {go : List ι → List ι} (hgo : go (r.lock.queue v.key) = (r.lock.queue v.key).erase v.id) :
    Without r v (r.lock.withdraw v.key v.lock go) := by
  have hn := hr.numbers v hv
  have hq := KeyedLock.queue_eq hn
  have hone : (go (r.lock.line v.lock)).length + 1 = (r.lock.line v.lock).length := by
    have hmem : v.id ∈ r.lock.queue v.key := by
      rw [hr.queue]
      exact List.mem_map_of_mem (mem_forKey.mpr ⟨hv, rfl⟩)
    have hpos := List.length_pos_of_mem hmem
    rw [← hq, hgo, List.length_erase_of_mem hmem]
    omega
  have hqueue (k : κ) : (r.lock.withdraw v.key v.lock go).queue k =
      (forKey k (r.present.filter (·.id ≠ v.id))).map Visitor.id := by
    rw [KeyedLock.queue_withdraw hr.locks hn hone]
    split
    · rename_i hk
      have hline : ((forKey k r.present).map Visitor.id).Nodup :=
        hr.ids.sublist (List.filter_sublist.map Visitor.id)
      rw [← hk, hgo, hk, hr.queue, hline.erase_eq_filter, forKey_filter, List.filter_map]
      exact congrArg _ (List.filter_congr fun w _ => by simp [bne, beq_eq_decide])
    · rename_i hk
      rw [hr.queue, forKey_without_other hr.ids hv hk]
  refine { locks := KeyedLock.Sound.withdraw hr.locks hn hone, numbers := ?_, queue := hqueue,
           line := ?_, up := ?_ }
  · intro w hw
    obtain ⟨hpresent, _⟩ := List.mem_filter.mp hw
    have hnumber := hr.numbers w hpresent
    by_cases hk : v.key = w.key
    · have hstands : (r.lock.withdraw v.key v.lock go).queue w.key ≠ [] := by
        rw [hqueue]
        exact List.ne_nil_of_mem (List.mem_map_of_mem (mem_forKey.mpr ⟨hw, rfl⟩))
      rw [KeyedLock.queue_withdraw hr.locks hn hone, if_pos hk, ← hk, hq] at hstands
      rw [← hnumber, ← hk, KeyedLock.locks_withdraw hr.locks hn hone, if_neg hstands, hn]
    · rw [(KeyedLock.withdraw_elsewhere hr.locks hn hk).locks, hnumber]
  · rw [KeyedLock.line_withdraw hr.locks hn, KeyedLock.queue_withdraw hr.locks hn hone, if_pos rfl,
      if_pos rfl, hq]
  · intro n hup
    rw [KeyedLock.locks_withdraw hr.locks hn hone] at hup
    split at hup
    · cases hup
    · exact (Option.some.inj hup).symm

def departed (r : LockRoom κ ι) (v : Visitor κ ι) (go : List ι → List ι) : LockRoom κ ι :=
  { r with
    lock := r.lock.withdraw v.key v.lock go
    waiting := r.waiting.filter (·.id ≠ v.id)
    leaving := r.leaving.filter (· ≠ v.id) }

theorem Lined.departed {r : LockRoom κ ι} (hr : r.Lined) {v : Visitor κ ι} (hv : v ∈ r.waiting)
    {go : List ι → List ι} (hgo : go (r.lock.queue v.key) = (r.lock.queue v.key).erase v.id) :
    (r.departed v go).Lined := by
  have hwithout := hr.without (List.mem_append_right _ hv) hgo
  have hpresent : (r.departed v go).present = r.present.filter (·.id ≠ v.id) := by
    have hin : r.inside.filter (·.id ≠ v.id) = r.inside :=
      List.filter_eq_self.mpr fun w hw => decide_eq_true (hr.ne_of_inside hw hv)
    simp only [present, LockRoom.departed, List.filter_append, hin]
  refine { ids := ?_, locks := hwithout.locks, numbers := ?_, queue := ?_, single := hr.single,
           leaving := ?_ }
  · rw [hpresent]
    exact hr.ids.sublist (List.filter_sublist.map Visitor.id)
  · rw [hpresent]
    exact hwithout.numbers
  · rw [hpresent]
    exact hwithout.queue
  · intro i hi
    obtain ⟨hi, hne⟩ := List.mem_filter.mp hi
    exact mem_ids_without.mpr ⟨hr.leaving i hi, by simpa using hne⟩

theorem departed_elsewhere {r : LockRoom κ ι} (hr : r.Lined) {v : Visitor κ ι} (hv : v ∈ r.waiting)
    (go : List ι → List ι) {k : κ} (hk : v.key ≠ k) : SameAt r (r.departed v go) k := by
  have hn := hr.numbers v (List.mem_append_right _ hv)
  refine ⟨rfl, forKey_without_other hr.waiting_ids hv hk,
    KeyedLock.withdraw_elsewhere hr.locks hn hk, ?_⟩
  intro w hw
  obtain ⟨hwaits, rfl⟩ := mem_forKey.mp hw
  simp [departed, hr.ne_of_key hv hwaits hk]

def calledIn (r : LockRoom κ ι) (n : Nat) : (fuel : Nat) → List (Visitor κ ι)
  | 0 => []
  | fuel + 1 =>
    match r.waiting.find? fun v => (r.lock.line n).head? = some v.id with
    | none => []
    | some v =>
      let r := { r with waiting := r.waiting.filter (·.id ≠ v.id) }
      if v.id ∈ r.leaving then
        v :: calledIn
          { r with lock := r.lock.release v.key v.lock, leaving := r.leaving.filter (· ≠ v.id) } n
          fuel
      else [v]

/-- The visitors `turns` are let in one after the other, and one of them may stay. -/
structure Calls (k : κ) (r g : LockRoom κ ι) (turns : List (Visitor κ ι)) : Prop where
  settled : g.Settled
  waiting : turns ++ forKey k g.waiting = forKey k r.waiting
  inside : ∃ stays, g.inside = r.inside ++ stays ∧ stays.Sublist turns
  others : ∀ k', k ≠ k' → SameAt r g k'

section Calling

variable {r : LockRoom κ ι} {k : κ} {n : Nat}

/-- Whoever is to be called in is the first who waits. -/
theorem Vacant.first (hr : r.Vacant k n) :
    r.waiting.find? (fun v => (r.lock.line n).head? = some v.id) = (forKey k r.waiting).head? := by
  have hline : r.lock.line n = (forKey k r.waiting).map Visitor.id := by
    rw [hr.line, hr.queue, present, forKey_append, hr.vacant, List.nil_append]
  rw [hline]
  rcases hwait : forKey k r.waiting with _ | ⟨v, rest⟩
  · simp
  · obtain ⟨hv, _⟩ := mem_forKey.mp (hwait ▸ List.mem_cons_self : v ∈ forKey k r.waiting)
    simp only [List.map_cons, List.head?_cons, Option.some.injEq]
    cases hfind : r.waiting.find? (fun w => v.id = w.id) with
    | none => simpa using List.find?_eq_none.mp hfind v hv
    | some w =>
      have hid : v.id = w.id := by simpa using List.find?_some hfind
      rw [List.inj_on_of_nodup_map hr.waiting_ids hv (List.mem_of_find?_eq_some hfind) hid]

/-- The first who waits gets in and goes out again at once. -/
theorem Vacant.pass (hr : r.Vacant k n) {v : Visitor κ ι} {rest : List (Visitor κ ι)}
    (hline : forKey k r.waiting = v :: rest) : (r.departed v List.tail).Vacant k n := by
  obtain ⟨hv, rfl⟩ := mem_forKey.mp (hline ▸ List.mem_cons_self : v ∈ forKey k r.waiting)
  have hmem : v ∈ r.present := List.mem_append_right _ hv
  have hfirst : (r.lock.queue v.key).tail = (r.lock.queue v.key).erase v.id := by
    rw [hr.queue, present, forKey_append, hr.vacant, List.nil_append, hline, List.map_cons,
      List.erase_cons_head, List.tail_cons]
  have hwithout := hr.without hmem hfirst
  obtain rfl := hr.up v.lock (hr.numbers v hmem)
  refine ⟨hr.toLined.departed hv hfirst, hr.vacant, hwithout.line, hwithout.up, ?_⟩
  intro w hw
  exact hr.held w (List.mem_filter.mp hw).1

/-- The first who waits gets in and stays. -/
theorem Vacant.enter (hr : r.Vacant k n) {v : Visitor κ ι} {rest : List (Visitor κ ι)}
    (hline : forKey k r.waiting = v :: rest) (hstays : v.id ∉ r.leaving) :
    Settled { r with
      waiting := r.waiting.filter (·.id ≠ v.id)
      inside := r.inside ++ [v] } := by
  obtain ⟨hv, rfl⟩ := mem_forKey.mp (hline ▸ List.mem_cons_self : v ∈ forKey k r.waiting)
  have hperm := (perm_without hr.waiting_ids hv).append_left r.inside
  refine { ids := ?_, locks := hr.locks, numbers := fun w hw => ?_, queue := fun k' => ?_,
           single := fun k' => ?_, leaving := fun i hi => ?_, held := fun w hw => ?_ }
  · have hids := ((hperm.map Visitor.id).nodup_iff).mp hr.ids
    simpa [present] using hids
  · exact hr.numbers w (hperm.mem_iff.mpr (by simpa [present] using hw))
  · simp only [hr.queue, present, forKey_append, forKey_single]
    by_cases hk : v.key = k'
    · subst hk
      rw [if_pos rfl, hr.vacant, hline, forKey_without_first hr.waiting_ids hline]
      rfl
    · rw [if_neg hk, forKey_without_other hr.waiting_ids hv hk, List.append_nil]
  · rw [forKey_append, forKey_single]
    by_cases hk : v.key = k'
    · subst hk
      simp [hr.vacant]
    · simpa [hk] using hr.single k'
  · exact mem_ids_without.mpr ⟨hr.leaving i hi, fun he => hstays (he ▸ hi)⟩
  · rw [forKey_append, forKey_single]
    by_cases hk : v.key = w.key
    · simp [hk]
    · simpa [hk] using hr.held w (List.mem_filter.mp hw).1 (Ne.symm hk)

theorem callIn_calls {fuel : Nat} (hr : r.Vacant k n) (hfuel : (forKey k r.waiting).length < fuel) :
    Calls k r (r.callIn n fuel) (r.calledIn n fuel) := by
  induction fuel generalizing r with
  | zero => omega
  | succ fuel ih =>
    have hfirst := hr.first
    rcases hline : forKey k r.waiting with _ | ⟨v, rest⟩
    · rw [hline] at hfirst
      simp only [callIn, calledIn, hfirst, List.head?_nil]
      refine ⟨⟨hr.toLined, fun w hw => hr.held w hw fun hk => ?_⟩, rfl, ⟨[], by simp⟩,
        fun k' _ => .refl r k'⟩
      simpa [hline] using mem_forKey.mpr ⟨hw, hk⟩
    · obtain ⟨hv, hvk⟩ := mem_forKey.mp (hline ▸ List.mem_cons_self : v ∈ forKey k r.waiting)
      have hrest := forKey_without_first hr.waiting_ids hline
      simp only [callIn, calledIn, hfirst, hline, List.head?_cons]
      by_cases hl : v.id ∈ r.leaving
      · rw [if_pos hl, if_pos hl]
        have hless : rest.length < fuel := by
          rw [hline, List.length_cons] at hfuel
          omega
        have hcalls := ih (hr.pass hline) (by rwa [departed, hrest])
        refine ⟨hcalls.settled, ?_, ?_, ?_⟩
        · exact (congrArg (v :: ·) (hcalls.waiting.trans hrest)).trans hline.symm
        · obtain ⟨stays, hin, hsub⟩ := hcalls.inside
          exact ⟨stays, hin, hsub.cons v⟩
        · intro k' hk
          exact (departed_elsewhere hr.toLined hv List.tail (hvk ▸ hk)).trans (hcalls.others k' hk)
      · rw [if_neg hl, if_neg hl]
        refine ⟨hr.enter hline hl, ?_, ⟨[v], rfl, .refl _⟩, fun k' hk => ?_⟩
        · rw [hrest, hline]
          rfl
        · have hother := forKey_without_other hr.waiting_ids hv (hvk ▸ hk)
          exact ⟨by simp [hvk, hk], hother, .refl _ k', fun _ _ => .rfl⟩

end Calling

inductive Step (κ ι : Type)
  | arrive (i : ι) (k : κ)
  | release (i : ι)
  | fail (i : ι)
  | cancel (i : ι)
  deriving DecidableEq, Repr

def newcomers (r : LockRoom κ ι) : Step κ ι → List (Visitor κ ι)
  | .arrive i k => [r.newcomer i k]
  | _ => []

def Step.Parts (s : Step κ ι) (i : ι) : Prop := s = .release i ∨ s = .fail i ∨ s = .cancel i

def step (r : LockRoom κ ι) : Step κ ι → LockRoom κ ι
  | .arrive i k => r.arrive i k
  | .release i | .fail i => r.dismiss i
  | .cancel i => r.cancel i

def run (r : LockRoom κ ι) (steps : List (Step κ ι)) : LockRoom κ ι := steps.foldl step r

def vacated (r : LockRoom κ ι) (v : Visitor κ ι) : LockRoom κ ι :=
  { r with lock := r.lock.release v.key v.lock, inside := r.inside.filter (·.id ≠ v.id) }

def entering (r : LockRoom κ ι) : Step κ ι → List (Visitor κ ι)
  | .arrive i k =>
    let v := r.newcomer i k
    if ((r.lock.acquire k i).line v.lock).head? = some i then [v] else []
  | .release i | .fail i | .cancel i =>
    match r.inside.find? (·.id = i) with
    | some v => (r.vacated v).calledIn v.lock (r.waiting.length + 1)
    | none => []

def Fresh (r : LockRoom κ ι) (s : Step κ ι) : Prop :=
  ∀ v ∈ r.newcomers s, v.id ∉ r.present.map Visitor.id

def Concerns (r : LockRoom κ ι) (k : κ) : Step κ ι → Prop
  | .arrive _ k' => k' = k
  | .release i | .fail i | .cancel i => ∃ v ∈ r.present, v.id = i ∧ v.key = k

structure Proceeds (r : LockRoom κ ι) (s : Step κ ι) (g : LockRoom κ ι)
    (turns : List (Visitor κ ι)) :
    Prop where
  settled : g.Settled
  order : ∀ k, forKey k turns ++ forKey k g.waiting =
    (forKey k r.waiting).filter (s ≠ .cancel ·.id) ++ forKey k (r.newcomers s)
  inside : g.inside.Sublist (r.inside ++ turns)
  others : ∀ k, ¬ r.Concerns k s → SameAt r g k

namespace Step.Parts

variable {r : LockRoom κ ι} {s : Step κ ι}

omit [DecidableEq ι] in
theorem newcomers {i : ι} (hs : s.Parts i) : r.newcomers s = [] := by
  rcases hs with rfl | rfl | rfl <;> rfl

/-- It turns away nobody but `i`. -/
theorem turns_away {i : ι} (hs : s.Parts i) {vs : List (Visitor κ ι)} (hvs : ∀ w ∈ vs, i ≠ w.id) :
    vs.filter (s ≠ .cancel ·.id) = vs := by
  refine List.filter_eq_self.mpr fun w hw => decide_eq_true ?_
  have hne := hvs w hw
  rcases hs with rfl | rfl | rfl <;> simp [hne]

omit [DecidableEq κ] [DecidableEq ι] in
theorem concerns {v : Visitor κ ι} (hs : s.Parts v.id) (hv : v ∈ r.present) :
    r.Concerns v.key s := by
  rcases hs with rfl | rfl | rfl <;> exact ⟨v, hv, rfl, rfl⟩

end Step.Parts

section Stepping

variable {r : LockRoom κ ι}

theorem Settled.vacate (hr : r.Settled) {v : Visitor κ ι} (hv : v ∈ r.inside) :
    (r.vacated v).Vacant v.key v.lock := by
  have hgone : forKey v.key (r.inside.filter (·.id ≠ v.id)) = [] :=
    forKey_without_first hr.inside_ids (hr.alone hv)
  have hfirst : (r.lock.queue v.key).tail = (r.lock.queue v.key).erase v.id := by
    rw [hr.queue, present, forKey_append, hr.alone hv, List.singleton_append, List.map_cons,
      List.erase_cons_head, List.tail_cons]
  have hwithout := hr.without (List.mem_append_left _ hv) hfirst
  have hpresent : (r.vacated v).present = r.present.filter (·.id ≠ v.id) := by
    have hwait : r.waiting.filter (·.id ≠ v.id) = r.waiting :=
      List.filter_eq_self.mpr fun w hw => decide_eq_true (hr.ne_of_inside hv hw).symm
    simp only [present, vacated, List.filter_append, hwait]
  refine { ids := ?_, locks := hwithout.locks, numbers := ?_, queue := ?_, single := ?_,
           leaving := hr.leaving, vacant := hgone, line := hwithout.line, up := hwithout.up,
           held := ?_ }
  · rw [hpresent]
    exact hr.ids.sublist (List.filter_sublist.map Visitor.id)
  · rw [hpresent]
    exact hwithout.numbers
  · rw [hpresent]
    exact hwithout.queue
  · intro k
    rw [vacated, forKey_filter]
    exact Nat.le_trans (List.length_filter_le _ _) (hr.single k)
  · intro w hw hne
    rw [vacated, forKey_without_other hr.inside_ids hv (Ne.symm hne)]
    exact hr.held w hw

theorem vacated_elsewhere (hr : r.Lined) {v : Visitor κ ι} (hv : v ∈ r.inside) {k : κ}
    (hk : v.key ≠ k) :
    SameAt r (r.vacated v) k :=
  ⟨forKey_without_other hr.inside_ids hv hk, rfl,
    KeyedLock.withdraw_elsewhere hr.locks (hr.numbers v (List.mem_append_left _ hv)) hk,
      fun _ _ => .rfl⟩

/-- Somebody goes out. -/
theorem goOut_proceeds (hr : r.Settled) {s : Step κ ι} {v : Visitor κ ι} (hv : v ∈ r.inside)
    (hs : s.Parts v.id) :
    Proceeds r s (r.goOut v) ((r.vacated v).calledIn v.lock (r.waiting.length + 1)) := by
  have hcalls : Calls v.key (r.vacated v) (r.goOut v) _ :=
    callIn_calls (hr.vacate hv) (Nat.lt_succ_of_le (List.length_filter_le _ _))
  generalize (r.vacated v).calledIn v.lock (r.waiting.length + 1) = turns at hcalls
  have hkey : ∀ w ∈ turns, w.key = v.key := fun w hw =>
    (mem_forKey.mp (hcalls.waiting ▸ List.mem_append_left _ hw)).2
  have hstay (k : κ) : (forKey k r.waiting).filter (s ≠ .cancel ·.id) = forKey k r.waiting :=
    hs.turns_away fun w hw => hr.ne_of_inside hv (mem_forKey.mp hw).1
  refine ⟨hcalls.settled, fun k => ?_, ?_, fun k hk => ?_⟩
  · rw [hs.newcomers, hstay]
    by_cases hk : v.key = k
    · subst hk
      have hall : forKey v.key turns = turns :=
        List.filter_eq_self.mpr fun w hw => decide_eq_true (hkey w hw)
      rw [hall, hcalls.waiting]
      simp [vacated, forKey]
    · have hnone : forKey k turns = [] :=
        List.filter_eq_nil_iff.mpr fun w hw => by simpa [hkey w hw] using hk
      rw [hnone, (hcalls.others k hk).waiting]
      simp [vacated, forKey]
  · obtain ⟨stays, hin, hsub⟩ := hcalls.inside
    rw [hin]
    exact List.filter_sublist.append hsub
  · have hne : v.key ≠ k := fun he => hk (he ▸ hs.concerns (List.mem_append_left _ hv))
    exact (vacated_elsewhere hr.toLined hv hne).trans (hcalls.others k hne)

structure Joined (r : LockRoom κ ι) (v : Visitor κ ι) (l : KeyedLock κ ι) : Prop where
  locks : l.Sound
  numbers : ∀ w ∈ r.present ++ [v], l.locks.get? w.key = some w.lock
  queue : ∀ k, l.queue k = (forKey k (r.present ++ [v])).map Visitor.id
  others : ∀ k, v.key ≠ k → r.lock.SameLock l k

omit [DecidableEq ι] in
/-- One who comes stands behind all others who came for the key, at the same lock. -/
theorem Lined.joined (hr : r.Lined) (i : ι) (k : κ) :
    Joined r (r.newcomer i k) (r.lock.acquire k i) where
  locks := hr.locks.acquire k i
  numbers w hw := by
    rcases List.mem_append.mp hw with hw | hw
    · by_cases hk : k = w.key
      · have hn := hr.numbers w hw
        rw [← hk] at hn ⊢
        rw [KeyedLock.locks_acquire, KeyedLock.enter_lock hn]
      · rw [(KeyedLock.acquire_elsewhere hr.locks hk).locks, hr.numbers w hw]
    · obtain rfl := List.mem_singleton.mp hw
      exact KeyedLock.locks_acquire
  queue k' := by
    rw [KeyedLock.queue_acquire hr.locks, hr.queue, forKey_append, forKey_single]
    by_cases hk : k = k' <;> simp [newcomer, hk]
  others _ hk := KeyedLock.acquire_elsewhere hr.locks hk

/-- Who finds nobody inside gets in at once. -/
theorem arrive_enters (hr : r.Settled) {i : ι} {k : κ} (hi : i ∉ r.present.map Visitor.id)
    (hq : r.lock.queue k = []) :
    Proceeds r (.arrive i k)
      { r with lock := r.lock.acquire k i, inside := r.inside ++ [r.newcomer i k] }
      [r.newcomer i k] := by
  have hnone : forKey k r.inside = [] ∧ forKey k r.waiting = [] := by
    have h := hr.queue k
    rw [hq] at h
    simpa [present] using h.symm
  have hjoined := hr.joined i k
  have hpresent :
      (r.inside ++ [r.newcomer i k] ++ r.waiting).Perm (r.present ++ [r.newcomer i k]) := by
    rw [present, List.append_assoc, List.append_assoc]
    exact List.perm_append_comm.append_left r.inside
  refine ⟨{ ids := ?_, locks := hjoined.locks, numbers := ?_, queue := ?_, single := ?_,
            leaving := hr.leaving, held := ?_ }, ?_, .refl _, ?_⟩
  · refine ((hpresent.map Visitor.id).nodup_iff).mpr ?_
    rw [List.map_append]
    exact List.nodup_append_comm.mp (List.nodup_cons.mpr ⟨hi, hr.ids⟩)
  · intro w hw
    exact hjoined.numbers w (hpresent.mem_iff.mp hw)
  · intro k'
    simp only [hjoined.queue, present, forKey_append, forKey_single]
    by_cases hk : k = k'
    · subst hk
      simp [hnone]
    · simp [newcomer, hk]
  · intro k'
    rw [forKey_append, forKey_single]
    by_cases hk : k = k'
    · subst hk
      simp [newcomer, hnone]
    · simpa [newcomer, hk] using hr.single k'
  · intro w hw
    rw [forKey_append]
    exact List.append_ne_nil_of_left_ne_nil (hr.held w hw) _
  · intro k'
    by_cases hk : k = k'
    · subst hk
      simp [hnone, newcomers]
    · simp [newcomer, newcomers, hk]
  · intro k' hk
    have hne : k ≠ k' := hk
    exact ⟨by simp [newcomer, hne], rfl, hjoined.others k' hk, fun _ _ => .rfl⟩

/-- Who finds somebody inside waits behind all others. -/
theorem arrive_waits (hr : r.Settled) {i : ι} {k : κ} (hi : i ∉ r.present.map Visitor.id)
    (hq : r.lock.queue k ≠ []) :
    Proceeds r (.arrive i k)
      { r with lock := r.lock.acquire k i, waiting := r.waiting ++ [r.newcomer i k] } [] := by
  have hsome : forKey k r.inside ≠ [] := by
    intro hnone
    rw [hr.queue, present, forKey_append, hnone, List.nil_append] at hq
    obtain ⟨w, hw⟩ := List.exists_mem_of_ne_nil _ (List.map_eq_nil_iff.not.mp hq)
    obtain ⟨hwaits, rfl⟩ := mem_forKey.mp hw
    exact hr.held w hwaits hnone
  have hjoined := hr.joined i k
  have hpresent : r.inside ++ (r.waiting ++ [r.newcomer i k]) = r.present ++ [r.newcomer i k] :=
    (List.append_assoc ..).symm
  refine ⟨{ ids := ?_, locks := hjoined.locks, numbers := ?_, queue := ?_, single := hr.single,
            leaving := ?_, held := ?_ }, ?_, ?_, ?_⟩
  · rw [present, hpresent, List.map_append]
    exact List.nodup_append_comm.mp (List.nodup_cons.mpr ⟨hi, hr.ids⟩)
  · rw [present, hpresent]
    exact hjoined.numbers
  · rw [present, hpresent]
    exact hjoined.queue
  · intro j hj
    rw [List.map_append]
    exact List.mem_append_left _ (hr.leaving j hj)
  · intro w hw
    rcases List.mem_append.mp hw with hw | hw
    · exact hr.held w hw
    · obtain rfl := List.mem_singleton.mp hw
      exact hsome
  · intro k'
    simp [newcomers]
  · simp
  · intro k' hk
    have hne : k ≠ k' := hk
    exact ⟨rfl, by simp [newcomer, hne], hjoined.others k' hk, fun _ _ => .rfl⟩

/-- Whoever waits may be told to leave; it waits on. -/
theorem dismiss_waits (hr : r.Settled) {s : Step κ ι} {v : Visitor κ ι} (hv : v ∈ r.waiting)
    (hs : s = .release v.id ∨ s = .fail v.id) :
    Proceeds r s { r with leaving := r.leaving ++ [v.id] } [] := by
  have hparts : s.Parts v.id := hs.imp_right .inl
  have hstay (k : κ) : (forKey k r.waiting).filter (s ≠ .cancel ·.id) = forKey k r.waiting := by
    refine List.filter_eq_self.mpr fun w _ => decide_eq_true ?_
    rcases hs with rfl | rfl <;> simp
  refine ⟨{ hr with leaving := ?_ }, ?_, by simp, ?_⟩
  · intro i hi
    rcases List.mem_append.mp hi with hi | hi
    · exact hr.leaving i hi
    · obtain rfl := List.mem_singleton.mp hi
      exact List.mem_map_of_mem hv
  · intro k
    rw [hparts.newcomers, hstay]
    simp
  · intro k hk
    refine ⟨rfl, rfl, .refl _ k, fun w hw => ?_⟩
    obtain ⟨hwaits, rfl⟩ := mem_forKey.mp hw
    have hne : v.key ≠ w.key := fun he => hk (he ▸ hparts.concerns (List.mem_append_right _ hv))
    simp [hr.ne_of_key hv hwaits hne]

/-- Whoever waits may be turned away; the others stay where they are. -/
theorem cancel_waits (hr : r.Settled) {v : Visitor κ ι} (hv : v ∈ r.waiting) :
    Proceeds r (.cancel v.id) (r.departed v (·.erase v.id)) [] := by
  refine ⟨⟨hr.toLined.departed hv rfl, ?_⟩, ?_, by simp [departed], ?_⟩
  · intro w hw
    exact hr.held w (List.mem_filter.mp hw).1
  · intro k
    rw [departed, forKey_filter]
    simp [newcomers, eq_comm]
  · intro k hk
    exact departed_elsewhere hr.toLined hv _ fun he => hk ⟨v, List.mem_append_right _ hv, rfl, he⟩

/-- A step about nobody who is there changes nothing. -/
theorem idle_proceeds (hr : r.Settled) {s : Step κ ι} {i : ι} (hi : i ∉ r.present.map Visitor.id)
    (hs : s.Parts i) : Proceeds r s r [] := by
  refine ⟨hr, fun k => ?_, by simp, fun k _ => .refl r k⟩
  have hstay : (forKey k r.waiting).filter (s ≠ .cancel ·.id) = forKey k r.waiting :=
    hs.turns_away fun w hw he =>
      hi (he ▸ List.mem_map_of_mem (List.mem_append_right _ (mem_forKey.mp hw).1))
  rw [hs.newcomers, hstay]
  simp

theorem dismiss_proceeds (hr : r.Settled) {s : Step κ ι} {i : ι}
    (hs : s = .release i ∨ s = .fail i) :
    Proceeds r s (r.dismiss i) (r.entering s) := by
  have hentering : r.entering s = match r.inside.find? (·.id = i) with
      | some v => (r.vacated v).calledIn v.lock (r.waiting.length + 1)
      | none => [] := by
    rcases hs with rfl | rfl <;> rfl
  rw [hentering, dismiss]
  cases hin : r.inside.find? (·.id = i) with
  | some v =>
    obtain ⟨hv, rfl⟩ := find?_id hin
    exact goOut_proceeds hr hv (hs.imp_right .inl)
  | none =>
    dsimp only
    split
    · rename_i hany
      obtain ⟨v, hv, hid⟩ := List.any_eq_true.mp hany
      obtain rfl : v.id = i := by simpa using hid
      exact dismiss_waits hr hv hs
    · rename_i hany
      refine idle_proceeds hr (i := i) ?_ (hs.imp_right .inl)
      rw [present, List.map_append, List.mem_append, not_or]
      refine ⟨not_mem_ids_of_find? hin, fun hm => hany ?_⟩
      obtain ⟨v, hv, rfl⟩ := List.mem_map.mp hm
      exact List.any_eq_true.mpr ⟨v, hv, by simp⟩

theorem cancel_proceeds (hr : r.Settled) (i : ι) :
    Proceeds r (.cancel i) (r.cancel i) (r.entering (.cancel i)) := by
  simp only [entering, cancel]
  cases hin : r.inside.find? (·.id = i) with
  | some v =>
    obtain ⟨hv, rfl⟩ := find?_id hin
    exact goOut_proceeds hr hv (.inr (.inr rfl))
  | none =>
    cases hwait : r.waiting.find? (·.id = i) with
    | some v =>
      obtain ⟨hv, rfl⟩ := find?_id hwait
      exact cancel_waits hr hv
    | none =>
      refine idle_proceeds hr (i := i) ?_ (.inr (.inr rfl))
      rw [present, List.map_append, List.mem_append, not_or]
      exact ⟨not_mem_ids_of_find? hin, not_mem_ids_of_find? hwait⟩

theorem arrive_proceeds (hr : r.Settled) {i : ι} {k : κ} (hi : i ∉ r.present.map Visitor.id) :
    Proceeds r (.arrive i k) (r.arrive i k) (r.entering (.arrive i k)) := by
  have hfirst : ((r.lock.acquire k i).line (r.newcomer i k).lock).head? = some i ↔
      r.lock.queue k = [] := by
    rw [newcomer, KeyedLock.line_acquire hr.locks]
    rcases hq : r.lock.queue k with _ | ⟨j, js⟩
    · simp
    · have hj : j ∈ r.present.map Visitor.id := by
        have hmem : j ∈ r.lock.queue k := hq ▸ List.mem_cons_self
        rw [hr.queue] at hmem
        exact (List.filter_sublist.map Visitor.id).subset hmem
      have hne : j ≠ i := fun he => hi (he ▸ hj)
      simp [hne]
  simp only [entering, arrive, hfirst]
  by_cases hq : r.lock.queue k = []
  · rw [if_pos hq, if_pos hq]
    exact arrive_enters hr hi hq
  · rw [if_neg hq, if_neg hq]
    exact arrive_waits hr hi hq

theorem step_proceeds (hr : r.Settled) {s : Step κ ι} (hs : r.Fresh s) :
    Proceeds r s (r.step s) (r.entering s) := by
  cases s with
  | arrive i k => exact arrive_proceeds hr (hs _ List.mem_cons_self)
  | release i => exact dismiss_proceeds hr (.inl rfl)
  | fail i => exact dismiss_proceeds hr (.inr rfl)
  | cancel i => exact cancel_proceeds hr i

end Stepping

def Admits (r : LockRoom κ ι) : List (Step κ ι) → Prop
  | [] => True
  | s :: steps => r.Fresh s ∧ (r.step s).Admits steps

instance decidableAdmits : (r : LockRoom κ ι) → (steps : List (Step κ ι)) →
    Decidable (r.Admits steps)
  | _, [] => .isTrue trivial
  | r, s :: steps =>
    have := decidableAdmits (r.step s) steps
    inferInstanceAs (Decidable ((∀ v ∈ r.newcomers s, v.id ∉ r.present.map Visitor.id) ∧ _))

def entries (r : LockRoom κ ι) : List (Step κ ι) → List (Visitor κ ι)
  | [] => []
  | s :: steps => r.entering s ++ (r.step s).entries steps

/-- One who waits is turned out before it gets in. -/
def turnedAway (r : LockRoom κ ι) (i : ι) : List (Step κ ι) → Bool
  | [] => false
  | s :: steps => i ∈ r.waiting.map Visitor.id && (s = .cancel i || (r.step s).turnedAway i steps)

/-- Those who come on the way and are not turned away, in this order. -/
def stayers (r : LockRoom κ ι) : List (Step κ ι) → List (Visitor κ ι)
  | [] => []
  | s :: steps =>
    (r.newcomers s).filter (fun v => !(r.step s).turnedAway v.id steps) ++ (r.step s).stayers steps

section Running

variable {r : LockRoom κ ι}

theorem run_settles {steps : List (Step κ ι)} (hr : r.Settled) (hs : r.Admits steps) :
    (r.run steps).Settled := by
  induction steps generalizing r with
  | nil => exact hr
  | cons s steps ih => exact ih (step_proceeds hr hs.1).settled hs.2

theorem turnedAway_of_not_waiting {i : ι} (hi : i ∉ r.waiting.map Visitor.id)
    (steps : List (Step κ ι)) :
    r.turnedAway i steps = false := by
  cases steps with
  | nil => rfl
  | cons s steps => simp only [turnedAway, decide_eq_false hi, Bool.false_and]

/-- Nobody who gets in at a step waits after it. -/
theorem Proceeds.waits_no_more {s : Step κ ι} {g : LockRoom κ ι} {turns : List (Visitor κ ι)}
    (hp : Proceeds r s g turns) (hr : r.Settled) (hs : r.Fresh s) {v : Visitor κ ι}
    (hv : v ∈ turns) :
    v.id ∉ g.waiting.map Visitor.id := by
  intro hm
  obtain ⟨w, hw, he⟩ := List.mem_map.mp hm
  have hids : ((r.waiting ++ r.newcomers s).map Visitor.id).Nodup := by
    rw [List.map_append]
    refine List.nodup_append.mpr ⟨hr.waiting_ids, ?_, ?_⟩
    · cases s <;> simp [newcomers]
    · intro i hi j hj hij
      obtain ⟨n, hn, rfl⟩ := List.mem_map.mp hj
      refine hs n hn ?_
      rw [present, List.map_append]
      exact List.mem_append_right _ (hij ▸ hi)
  have hsub (k : κ) :
      (forKey k turns ++ forKey k g.waiting).Sublist (r.waiting ++ r.newcomers s) := by
    rw [hp.order]
    exact (List.filter_sublist.trans List.filter_sublist).append List.filter_sublist
  have hturn : v ∈ forKey v.key turns := mem_forKey.mpr ⟨hv, rfl⟩
  have hwait : w ∈ forKey w.key g.waiting := mem_forKey.mpr ⟨hw, rfl⟩
  obtain rfl : w = v := List.inj_on_of_nodup_map hids
    ((hsub w.key).subset (List.mem_append_right _ hwait))
    ((hsub v.key).subset (List.mem_append_left _ hturn)) he
  exact List.disjoint_of_nodup_append ((List.Nodup.of_map _ hids).sublist (hsub w.key)) hturn hwait

/-- Those who waited and those who came, the ones turned away left out, got in in order or wait in
order. -/
theorem run_in_order {steps : List (Step κ ι)} (hr : r.Settled) (hs : r.Admits steps) (k : κ) :
    forKey k (r.entries steps) ++ forKey k (r.run steps).waiting =
      (forKey k r.waiting).filter (fun v => !r.turnedAway v.id steps) ++ forKey k
      (r.stayers steps) := by
  induction steps generalizing r with
  | nil => simp [entries, run, turnedAway, stayers]
  | cons s steps ih =>
    have hp := step_proceeds hr hs.1
    let stays (v : Visitor κ ι) : Bool := !(r.step s).turnedAway v.id steps
    have hentering : (forKey k (r.entering s)).filter stays = forKey k (r.entering s) := by
      refine List.filter_eq_self.mpr fun v hv => ?_
      have hgone := hp.waits_no_more hr hs.1 (mem_forKey.mp hv).1
      simp only [stays, turnedAway_of_not_waiting hgone, Bool.not_false]
    have hwaiting : (forKey k r.waiting).filter (fun v => !r.turnedAway v.id (s :: steps)) =
        ((forKey k r.waiting).filter (s ≠ .cancel ·.id)).filter stays := by
      rw [List.filter_filter]
      refine List.filter_congr fun v hv => ?_
      have hm : v.id ∈ r.waiting.map Visitor.id := List.mem_map_of_mem (mem_forKey.mp hv).1
      simp only [turnedAway, decide_eq_true hm, stays, Bool.true_and, Bool.not_or,
        Bool.and_comm, decide_not]
    calc forKey k (r.entries (s :: steps)) ++ forKey k (r.run (s :: steps)).waiting
        = forKey k (r.entering s) ++
            (forKey k ((r.step s).entries steps) ++ forKey k ((r.step s).run steps).waiting) := by
          simp [entries, run]
      _ = (forKey k (r.entering s) ++ forKey k (r.step s).waiting).filter stays ++
            forKey k ((r.step s).stayers steps) := by
          rw [ih hp.settled hs.2, List.filter_append, hentering, List.append_assoc]
      _ = _ := by
          rw [hp.order, List.filter_append, hwaiting, stayers, forKey_append, forKey_filter,
            List.append_assoc]

/-- Those inside stand in the order in which they got in. -/
theorem run_inside {steps : List (Step κ ι)} (hr : r.Settled) (hs : r.Admits steps) :
    (r.run steps).inside.Sublist (r.inside ++ r.entries steps) := by
  induction steps generalizing r with
  | nil => simp [run, entries]
  | cons s steps ih =>
    have hp := step_proceeds hr hs.1
    refine (ih hp.settled hs.2).trans ?_
    rw [entries, ← List.append_assoc]
    exact hp.inside.append_right _

end Running

/-- After any steps each key has one inside at most, who holds its lock; where somebody waits,
somebody is inside; visitors get in in the order in which they came, apart from those who were
turned away; a step about one key changes nothing for the others; all who came for a key stand at
the one lock that is up for it, and are counted; and there are as many locks as keys that visitors
came for. -/
theorem run_keeps_locks {steps : List (Step κ ι)} (h : Admits {} steps) :
    let r := run {} steps
    (∀ k, (forKey k r.inside).length ≤ 1 ∧
      (forKey k r.inside).map Visitor.id = (r.lock.holder? k).toList) ∧
    (∀ v ∈ r.waiting, ∃ w ∈ r.inside, w.key = v.key) ∧
    (∀ k, forKey k (entries {} steps) ++ forKey k r.waiting = forKey k (stayers {} steps)) ∧
    r.inside.Sublist (entries {} steps) ∧
    (∀ s k, r.Fresh s → ¬ r.Concerns k s → SameAt r (r.step s) k) ∧
    (∀ v ∈ r.inside ++ r.waiting, r.lock.locks.get? v.key = some v.lock ∧
      r.lock.users.get? v.key = some (forKey v.key (r.inside ++ r.waiting)).length) ∧
    r.lock.size = ((r.inside ++ r.waiting).map Visitor.key).dedup.length := by
  intro r
  have hr : r.Settled := run_settles settled_start h
  refine ⟨?_, ?_, ?_, ?_, ?_, ?_, hr.size_eq⟩
  · intro k
    exact ⟨hr.single k, (hr.holder?_eq k).symm⟩
  · intro v hv
    obtain ⟨w, hw⟩ := List.exists_mem_of_ne_nil _ (hr.held v hv)
    exact ⟨w, mem_forKey.mp hw⟩
  · intro k
    simpa [forKey] using run_in_order settled_start h k
  · simpa using run_inside settled_start h
  · intro s k hs hk
    exact (step_proceeds hr hs).others k hk
  · intro v hv
    exact ⟨hr.numbers v hv, hr.users_eq hv⟩

/-- The third is told to leave while it waits, the second is turned away, and then the first fails;
the fourth goes before the seventh comes. -/
def visits : List (Step Char Nat) :=
  [.arrive 1 'a', .arrive 2 'a', .arrive 3 'a', .arrive 4 'b', .arrive 5 'a', .release 3,
    .cancel 2, .fail 1,
    .release 4, .arrive 6 'a', .arrive 7 'b']

/-- The third passes through, the fifth stays inside, the sixth waits for it, and a new lock is put
up for the seventh. -/
theorem run_keeps_locks_visits :
    Admits {} visits ∧
      (forKey 'a' (run {} visits).inside).length ≤ 1 ∧
      forKey 'a' (entries {} visits) = [⟨1, 'a', 0⟩, ⟨3, 'a', 0⟩, ⟨5, 'a', 0⟩] ∧
      forKey 'a' (entries {} visits) ++ [⟨6, 'a', 0⟩] = forKey 'a' (stayers {} visits) ∧
      SameAt (run {} visits) ((run {} visits).step (.cancel 5)) 'b' ∧
      (run {} visits).lock.locks.get? 'b' = some 2 ∧
      (run {} visits).lock.users.get? 'a' = some 2 ∧
      (run {} visits).lock.size = 2 := by
  have hadmits : Admits {} visits := by decide
  have hinside : (run {} visits).inside = [⟨5, 'a', 0⟩, ⟨7, 'b', 2⟩] := by decide
  have hwaiting : (run {} visits).waiting = [⟨6, 'a', 0⟩] := by decide
  have hcancel : ¬ ∃ v ∈ (run {} visits).present, v.id = 5 ∧ v.key = 'b' := by decide
  obtain ⟨hheld, _, horder, _, hothers, hlocks, hsize⟩ := run_keeps_locks hadmits
  rw [hinside, hwaiting] at hlocks hsize
  have hsixth := horder 'a'
  rw [hwaiting] at hsixth
  refine ⟨hadmits, (hheld 'a').1, by decide, hsixth, hothers _ _ nofun hcancel, ?_, ?_, hsize⟩
  · exact (hlocks ⟨7, 'b', 2⟩ (by decide)).1
  · exact (hlocks ⟨6, 'a', 0⟩ (by decide)).2

end LockRoom
end NotebookHub
