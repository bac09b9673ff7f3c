import RowScope.Proofs.Traversal
import RowScope.Sanitize

/-!
# Dates in filter values

The dates of a filter value are read from its first text that is not blank
(`FilterValue.dates_eq_ok`). Two dates make one window in either order (`DateWindow.between_comm`),
which runs from the earlier to the later of them, so the ends of a window are always in order
(`FilterValue.dates_window`).
-/

namespace RowScope

open RowScope.Calendar (Date)

/-- The earlier of two dates. -/
def Calendar.Date.earlier (a b : Date) : Date := if Ordered.cmp a b ≠ .gt then a else b

/-- The later of two dates. -/
def Calendar.Date.later (a b : Date) : Date := if Ordered.cmp a b ≠ .gt then b else a

namespace DateWindow

/-- The window of two dates runs from the earlier to the later one. -/
theorem between_eq (a b : Date) : between a b = .within (a.earlier b) (a.later b) := by
  unfold between Calendar.Date.earlier Calendar.Date.later
  split <;> rfl

/-- The earlier of two dates does not come after the later one. -/
theorem earlier_le_later (a b : Date) : Ordered.cmp (a.earlier b) (a.later b) ≠ .gt := by
  unfold Calendar.Date.earlier Calendar.Date.later
  split
  · assumption
  · next h =>
    -- Exchanged dates compare the other way round.
    rw [Decidable.not_not, Ordered.cmp_gt_iff] at h
    rw [h]
    decide

/-- The order of the two dates does not matter to their window. -/
theorem between_comm (a b : Date) : between a b = between b a := by
  unfold between
  cases h : Ordered.cmp a b with
  | eq =>
    cases (Ordered.cmp_eq_iff a b).1 h
    rw [h]
  | lt =>
    rw [← Ordered.cmp_swap a b, h]
    rfl
  | gt =>
    rw [← Ordered.cmp_swap a b, h]
    rfl

end DateWindow

variable {value : FilterValue} {condition : Condition} {format : String} {window : DateWindow}

namespace FilterValue

/-- The dates of a value are those of its first text that is not blank. -/
theorem dates_eq_ok :
    value.dates condition format = .ok window ↔
      ∃ text rest, value.trimmed = text :: rest ∧
        readWindow? condition format text.toList = some window := by
  unfold dates usable keptOr
  cases value.trimmed with
  | nil => simp [bind, Except.bind]
  | cons text rest =>
    cases h : readWindow? condition format text.toList <;>
      simp [bind, Except.bind, pure, Except.pure, h]

/-- The dates of a value between two dates are in order. -/
theorem dates_window (h : value.dates .window format = .ok window) :
    ∃ first last, window = .within first last ∧ Ordered.cmp first last ≠ .gt := by
  obtain ⟨text, rest, -, hread⟩ := dates_eq_ok.1 h
  obtain ⟨halves, -, hread⟩ := Option.bind_eq_some_iff.1 hread
  obtain ⟨a, -, hread⟩ := Option.bind_eq_some_iff.1 hread
  obtain ⟨b, -, hread⟩ := Option.bind_eq_some_iff.1 hread
  cases hread
  exact ⟨_, _, DateWindow.between_eq a b, DateWindow.earlier_le_later a b⟩

end FilterValue

/-- A value is sanitized to the dates that are read from it. -/
theorem sanitize_dates_eq_ok {safe : SafeValue} :
    sanitize value (.dates condition format) = .ok safe ↔
      ∃ window, value.dates condition format = .ok window ∧ safe = .dates window := by
  rw [sanitize, Traversal.map_eq_ok]
  simp only [eq_comm]

end RowScope
