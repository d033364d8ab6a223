import NotebookHub.Document.Edit

namespace NotebookHub

/-- A position that was pulled back to the last unit of its line stands inside it. -/
theorem Position.settle_settle (lines : List (List Char)) (p : Position) :
    (p.settle lines).settle lines = p.settle lines := by
  unfold settle
  cases hl : lines[p.line]? with
  | none => simp [hl]
  | some line =>
    by_cases hc : 0 < Text.length16 (Text.plainEnd line) ∧
        Text.length16 (Text.plainEnd line) < p.character
    · have hin : ¬ (Text.length16 (Text.plainEnd line) <
          Text.length16 (Text.plainEnd line) - 1) := by omega
      simp [hl, hc, hin]
    · simp [hl, hc]

namespace Edit

theorem settle_settle (e : Edit) (text : String) : (e.settle text).settle text = e.settle text := by
  cases e with
  | whole new => rfl
  | span start stop new => simp [settle, Position.settle_settle]

theorem apply_settle (e : Edit) (text : String) : (e.settle text).apply text = e.apply text := by
  simp [apply, settle_settle]

theorem applyAll_settled (es : List Edit) (text : String) :
    applyAll (applyAll es text).2 text = applyAll es text := by
  induction es generalizing text with
  | nil => rfl
  | cons e es ih => simp [applyAll, apply_settle, settle_settle, ih]

end Edit
end NotebookHub
