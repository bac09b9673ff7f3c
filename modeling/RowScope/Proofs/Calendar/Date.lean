import RowScope.Calendar.Date
import RowScope.Proofs.Number.Decimal

/-!
# Texts of dates

A date is determined by its text: the month and the day take two digits each, and what is left of
the text is the year, with a sign just where it does not lie from 0 to 9999.
-/

namespace RowScope.Calendar.Date

/-- The year of a date in at least four digits, with a sign unless it lies from 0 to 9999. -/
def yearText (year : Int) : List Char :=
  if 0 ≤ year ∧ year ≤ 9999 then Number.padded 4 year.toNat
  else (if year < 0 then '-' else '+') :: Number.padded 4 year.natAbs

/-- The text of a date by its parts. -/
theorem text_eq (d : Date) : d.text = String.ofList
    (yearText d.year ++ '-' :: Number.padded 2 d.month ++ '-' :: Number.padded 2 d.day) := rfl

/-- A year is determined by its text. -/
theorem yearText_injective {y z : Int} (h : yearText y = yearText z) : y = z := by
  have digits : ∀ n, ∀ c ∈ Number.padded 4 n, c.isDigit = true :=
    fun _ _ => Number.isDigit_of_mem_padded
  have sign : ∀ x : Int, (if x < 0 then '-' else '+').isDigit = false := by
    intro x
    split <;> rfl
  unfold yearText at h
  by_cases hy : 0 ≤ y ∧ y ≤ 9999 <;> by_cases hz : 0 ≤ z ∧ z ≤ 9999
  · rw [if_pos hy, if_pos hz] at h
    have hnat := Number.padded_injective h
    omega
  · rw [if_pos hy, if_neg hz] at h
    exact absurd h (Number.ne_sign_cons (digits _) (sign z))
  · rw [if_neg hy, if_pos hz] at h
    exact absurd h.symm (Number.ne_sign_cons (digits _) (sign y))
  · rw [if_neg hy, if_neg hz] at h
    obtain ⟨hsign, hdigits⟩ := List.cons.inj h
    have habs := Number.padded_injective hdigits
    -- The signs say on which side of zero the years lie.
    have side : ∀ x : Int, (if x < 0 then '-' else '+') = '-' ↔ x < 0 := by
      intro x
      split <;> simp_all
    have hside : y < 0 ↔ z < 0 := by rw [← side y, hsign, side z]
    omega

/-- No month has more than 31 days. -/
theorem day_le (d : Date) : d.day ≤ 31 := by
  obtain ⟨-, -, -, -, -, hday⟩ := d.isDate
  refine Nat.le_trans hday ?_
  unfold daysInMonth
  split
  · split <;> decide
  · split <;> decide

/-- Months and days take two digits. -/
theorem length_padded (d : Date) :
    (Number.padded 2 d.month).length = 2 ∧ (Number.padded 2 d.day).length = 2 := by
  obtain ⟨-, -, -, hmonth, -, -⟩ := d.isDate
  have hday := d.day_le
  exact ⟨Number.length_padded (by decide) (Nat.lt_of_le_of_lt hmonth (by decide)),
    Number.length_padded (by decide) (Nat.lt_of_le_of_lt hday (by decide))⟩

/-- A date is determined by its text. -/
theorem text_injective {d e : Date} (h : d.text = e.text) : d = e := by
  rw [text_eq, text_eq] at h
  obtain ⟨hdm, hdd⟩ := d.length_padded
  obtain ⟨hem, hed⟩ := e.length_padded
  obtain ⟨h, hday⟩ := List.append_inj' (String.ofList_injective h) (by simp [hdd, hed])
  obtain ⟨hyear, hmonth⟩ := List.append_inj' h (by simp [hdm, hem])
  apply parts_injective
  rw [parts, parts, yearText_injective hyear, Number.padded_injective (List.cons.inj hmonth).2,
    Number.padded_injective (List.cons.inj hday).2]

end RowScope.Calendar.Date
