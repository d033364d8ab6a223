import Mathlib.Data.List.Basic
import NotebookHub.Notebook.Splice

namespace NotebookHub

variable {α : Type}

/-- A stretch between two others is exchanged where it stands. -/
theorem splice_between (front old back new : List α) :
    splice (front ++ old ++ back) front.length old.length new = (front ++ new ++ back, old) := by
  have hstart : clampStart front.length (front ++ old ++ back).length = front.length := by
    simp only [clampStart, List.length_append, Int.toNat_natCast]
    omega
  simp only [splice, hstart]
  simp

/-- A range that reaches outside the list means the part of it inside. -/
theorem splice_clamped {cells : List α} {start count : Int} {s d : Nat}
    (hs : s = max 0 (min start cells.length)) (hd : d = max 0 (min count (cells.length - s)))
    (new : List α) :
    splice cells start count new = splice cells s d new := by
  have hstart : clampStart start cells.length = s ∧ clampStart s cells.length = s := by
    simp only [clampStart, Int.toNat_natCast]
    omega
  have hcount : (cells.drop s).take count.toNat = (cells.drop s).take d := by
    rw [List.take_eq_take_iff, List.length_drop]
    omega
  simp only [splice, hstart, hcount, Int.toNat_natCast]

/-- The list around a range. -/
theorem take_append_range_append_drop (cells : List α) (s d : Nat) :
    cells.take s ++ (cells.drop s).take d ++ cells.drop (s + d) = cells := by
  rw [List.append_assoc, ← List.drop_drop, List.take_append_drop, List.take_append_drop]

/-- What is put in and what is taken out are all that changes. -/
theorem perm_exchange (front old back new : List α) :
    (front ++ new ++ back ++ old).Perm (front ++ old ++ back ++ new) := by
  calc front ++ new ++ back ++ old = front ++ ((new ++ back) ++ old) := by simp
    List.Perm _ (front ++ (old ++ (new ++ back))) := List.perm_append_comm.append_left front
    List.Perm _ (front ++ (old ++ (back ++ new))) :=
      (List.perm_append_comm.append_left old).append_left front
    _ = front ++ old ++ back ++ new := by simp

/-- A splice at any place, of any count, exchanges for what is put in, if anything is, just the
elements from that place on that are there to be taken out. It gives them in order; none is lost and
none is there twice. The splice of them back to the same place restores the list and gives what was
put in. -/
theorem splice_exchanges (cells : List α) (start count : Int) (inserted : Option (List α)) :
    ∃ (s d : Nat) (after removed : List α),
      s = max 0 (min start cells.length) ∧ d = max 0 (min count (cells.length - s)) ∧
      splice cells start count (inserted.getD []) = (after, removed) ∧
      after = cells.take s ++ inserted.getD [] ++ cells.drop (s + d) ∧
      removed = (cells.drop s).take d ∧ removed.length = d ∧
      (after ++ removed).Perm (cells ++ inserted.getD []) ∧
      splice after s (inserted.getD []).length removed = (cells, inserted.getD []) := by
  generalize inserted.getD [] = new
  obtain ⟨s, hs⟩ := Int.eq_ofNat_of_zero_le (Int.le_max_left 0 (min start cells.length))
  obtain ⟨d, hd⟩ := Int.eq_ofNat_of_zero_le (Int.le_max_left 0 (min count (cells.length - s)))
  have hfront : (cells.take s).length = s := by
    rw [List.length_take]
    omega
  have hremoved : ((cells.drop s).take d).length = d := by
    rw [List.length_take, List.length_drop]
    omega
  have hcells := take_append_range_append_drop cells s d
  have hthere := splice_between (cells.take s) ((cells.drop s).take d) (cells.drop (s + d)) new
  have hback := splice_between (cells.take s) new (cells.drop (s + d)) ((cells.drop s).take d)
  have hkept := perm_exchange (cells.take s) ((cells.drop s).take d) (cells.drop (s + d)) new
  rw [hcells, hfront, hremoved] at hthere
  rw [hcells, hfront] at hback
  rw [hcells] at hkept
  exact ⟨s, d, _, _, hs.symm, hd.symm, (splice_clamped hs.symm hd.symm new).trans hthere, rfl, rfl,
    hremoved, hkept,
    hback⟩

/-- A range that begins before the list and ends behind it. -/
example : splice [1, 2, 3] (-2) 9 [4] = ([4], [1, 2, 3]) := by decide

end NotebookHub
