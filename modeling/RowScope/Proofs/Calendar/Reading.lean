import RowScope.Calendar.Reader
import RowScope.Proofs.Calendar.Date

/-!
# Reading back dates

The common form of dates reads the text of every date as that date (`readPlainDate?_text`), in years
of any size and sign. A number is read up to where its digits end (`takeSigned_append`), and a year
with a sign may have as many digits as it needs.
-/

namespace RowScope.Calendar

variable {digits rest : List Char} {width : Option Nat}

/-- Digits are not blank. -/
theorem isBlank_of_isDigit {c : Char} (h : c.isDigit = true) : Text.isBlank c = false := by
  have hrange : 48 ≤ c.toNat ∧ c.toNat ≤ 57 := by
    simp only [Char.isDigit, Bool.and_eq_true, decide_eq_true_eq] at h
    exact ⟨UInt32.le_iff_toNat_le.1 h.1, UInt32.le_iff_toNat_le.1 h.2⟩
  simp only [Text.isBlank, Bool.or_eq_false_iff, Bool.and_eq_false_iff, decide_eq_false_iff_not,
    beq_eq_false_iff_ne]
  omega

/-- Digits are read as their number up to where they end. -/
theorem takeNumber_append (hdigits : ∀ c ∈ digits, c.isDigit = true) (hne : digits ≠ [])
    (hrest : ∀ c ∈ rest.head?, c.isDigit = false) (hwidth : ∀ n ∈ width, digits.length ≤ n)
    (hvalue : Number.digitsValue digits ≤ greatestInteger) :
    takeNumber width (digits ++ rest) = some (Number.digitsValue digits, rest) := by
  unfold takeNumber
  rw [(Number.takeWhile_isDigit_append hdigits hrest).1]
  have found : (if digits.isEmpty ∨ greatestInteger < Number.digitsValue digits then none
      else some (Number.digitsValue digits, (digits ++ rest).drop digits.length)) =
        some (Number.digitsValue digits, rest) := by
    rw [if_neg, List.drop_left]
    rw [List.isEmpty_iff]
    exact fun h => h.elim hne (Nat.not_lt.2 hvalue)
  cases width with
  | none => exact found
  | some n =>
    dsimp only
    rw [List.take_of_length_le (hwidth n rfl)]
    exact found

/-- Digits without a sign are read as their number. -/
theorem takeSigned_append (hdigits : ∀ c ∈ digits, c.isDigit = true) (hne : digits ≠ [])
    (hrest : ∀ c ∈ rest.head?, c.isDigit = false) (hwidth : ∀ n ∈ width, digits.length ≤ n)
    (hvalue : Number.digitsValue digits ≤ greatestInteger) (signed : Bool) :
    takeSigned signed width (digits ++ rest) = some ((Number.digitsValue digits : Int), rest) := by
  have htake := takeNumber_append hdigits hne hrest hwidth hvalue
  obtain ⟨d, ds, rfl⟩ := List.exists_cons_of_ne_nil hne
  have hd := hdigits d List.mem_cons_self
  have hblank : Text.dropBlank (d :: ds ++ rest) = d :: ds ++ rest := by
    simp [Text.dropBlank, isBlank_of_isDigit hd]
  have hsign : d ≠ '-' ∧ d ≠ '+' := by
    constructor <;> rintro rfl <;> cases hd
  unfold takeSigned
  rw [hblank]
  split
  · next _ _ h => exact absurd (List.cons.inj h).1 hsign.1
  · next _ _ h => exact absurd (List.cons.inj h).1 hsign.2
  · rw [htake]
    rfl

/-- A number that no digit follows is read, if it has no more digits than are wanted. -/
theorem takeSigned_padded {w n limit : Nat} (hlength : (Number.padded w n).length ≤ limit)
    (hn : n ≤ greatestInteger) (hrest : ∀ c ∈ rest.head?, c.isDigit = false) (signed : Bool) :
    takeSigned signed (some limit) (Number.padded w n ++ rest) = some ((n : Int), rest) := by
  have hwidth : ∀ m ∈ some limit, (Number.padded w n).length ≤ m := by
    rintro m ⟨⟩
    exact hlength
  rw [takeSigned_append (fun c hc => Number.isDigit_of_mem_padded hc) (Number.padded_ne_nil w n)
    hrest hwidth (by rw [Number.digitsValue_padded]; exact hn), Number.digitsValue_padded]

/-- A number after a sign is read with that sign, whatever the number of its digits. -/
theorem takeSigned_sign {w n : Nat} (hrest : ∀ c ∈ rest.head?, c.isDigit = false)
    (hn : n ≤ greatestInteger) :
    takeSigned true width ('-' :: (Number.padded w n ++ rest)) = some (-(n : Int), rest) ∧
      takeSigned true width ('+' :: (Number.padded w n ++ rest)) = some ((n : Int), rest) := by
  have htake : takeNumber none (Number.padded w n ++ rest) = some (n, rest) := by
    rw [takeNumber_append (fun c hc => Number.isDigit_of_mem_padded hc)
      (Number.padded_ne_nil w n) hrest (by simp)
      (by rw [Number.digitsValue_padded]; exact hn), Number.digitsValue_padded]
  constructor
  · show (takeNumber none _).map _ = _
    rw [htake]
    rfl
  · show (takeNumber none _).map _ = _
    rw [htake]
    rfl

/-- The text of a year is read as that year. -/
theorem takeSigned_yearText {year : Int} (hleast : firstYear ≤ year)
    (hgreatest : year ≤ lastYear) (hrest : ∀ c ∈ rest.head?, c.isDigit = false) :
    takeSigned true (some 4) (Date.yearText year ++ rest) = some (year, rest) := by
  have hvalue : year.natAbs ≤ greatestInteger := by
    have hmost : 262143 ≤ greatestInteger := by decide
    unfold firstYear at hleast
    unfold lastYear at hgreatest
    omega
  obtain ⟨hminus, hplus⟩ := @takeSigned_sign rest (some 4) 4 _ hrest hvalue
  unfold Date.yearText
  split
  · next hplain =>
    have hlength : (Number.padded 4 year.toNat).length = 4 := by
      have hdigits : year.toNat < 10000 := by omega
      exact Number.length_padded (by decide) hdigits
    rw [takeSigned_padded (Nat.le_of_eq hlength) (by omega) hrest,
      Int.toNat_of_nonneg hplain.1]
  · rw [List.cons_append]
    split
    · rw [hminus, show -(year.natAbs : Int) = year by omega]
    · rw [hplus, show (year.natAbs : Int) = year by omega]

/-- The components that the text of a date has. -/
def Date.fields (d : Date) : Fields := [(.day, d.day), (.month, d.month), (.year, d.year)]

/-- The year, the month and the day of a date name it, and nothing contradicts them. -/
theorem date?_fields (d : Date) : d.fields.date? = some d := by
  have hparts : Date.ofParts? d.year d.month d.day = some d := dif_pos d.isDate
  have hnamed : d.fields.named? (some d.year) none = some d := by
    simpa [Fields.named?, Date.fields, Fields.get?] using hparts
  have hyear : d.fields.agreesWithYear .year .century .yearOfCentury d.year = true := by
    unfold Fields.agreesWithYear
    split <;> simp [Fields.agrees, Date.fields, Fields.get?]
  have hiso : d.fields.agreesWithYear .isoYear .isoCentury .isoYearOfCentury d.isoWeek.1 =
      true := by
    unfold Fields.agreesWithYear
    split <;> simp [Fields.agrees, Date.fields, Fields.get?]
  have hagrees : (d.fields.agreesWithParts d && d.fields.agreesWithOrdinal d &&
      d.fields.agreesWithIsoWeek d && d.fields.agrees .quarter d.quarter) = true := by
    unfold Fields.agreesWithParts Fields.agreesWithOrdinal Fields.agreesWithIsoWeek
    rw [hyear, hiso]
    simp [Fields.agrees, Date.fields, Fields.get?]
  have hwhole : Fields.resolveYear (d.fields.get? .year) (d.fields.get? .century)
      (d.fields.get? .yearOfCentury) = some (some d.year) := rfl
  have hweek : Fields.resolveYear (d.fields.get? .isoYear) (d.fields.get? .isoCentury)
      (d.fields.get? .isoYearOfCentury) = some none := rfl
  unfold Fields.date?
  simp only [hwhole, hweek, hnamed, hagrees, bind, Option.bind, if_true]

/-- The text of a date is read as that date. -/
theorem readPlainDate?_text (d : Date) : readPlainDate? d.text = some d := by
  obtain ⟨hleast, hgreatest, hmonth₁, hmonth, hday₁, -⟩ := d.isDate
  have hday := d.day_le
  obtain ⟨hmonthLength, hdayLength⟩ := d.length_padded
  have hmost : 31 ≤ greatestInteger := by decide
  -- The year, the month and the day are read up to the hyphen or the end after each.
  have takeYear : takeSigned true (some 4) (Date.yearText d.year ++ '-' ::
      (Number.padded 2 d.month ++ '-' :: (Number.padded 2 d.day ++ []))) =
        some (d.year, '-' :: (Number.padded 2 d.month ++ '-' :: (Number.padded 2 d.day ++ []))) :=
    takeSigned_yearText hleast hgreatest (by simp)
  have takeMonth : takeSigned false (some 2) (Number.padded 2 d.month ++ '-' ::
      (Number.padded 2 d.day ++ [])) =
        some ((d.month : Int), '-' :: (Number.padded 2 d.day ++ [])) :=
    takeSigned_padded (Nat.le_of_eq hmonthLength) (by omega) (by simp) false
  have takeDay : takeSigned false (some 2) (Number.padded 2 d.day ++ []) =
      some ((d.day : Int), []) :=
    takeSigned_padded (Nat.le_of_eq hdayLength) (by omega) (by simp) false
  have addYear : Numeric.addTo .year [] d.year = some [(.year, d.year)] := by
    refine if_pos ⟨?_, ?_⟩
    · unfold Fields.leastYear
      unfold firstYear at hleast
      omega
    · unfold Fields.greatestYear
      unfold lastYear at hgreatest
      omega
  have addMonth : Numeric.addTo .month [(.year, d.year)] d.month =
      some [(.month, (d.month : Int)), (.year, d.year)] :=
    if_pos ⟨by omega, by omega⟩
  have addDay : Numeric.addTo .day [(.month, (d.month : Int)), (.year, d.year)] d.day =
      some d.fields :=
    if_pos ⟨by omega, by omega⟩
  have htext : d.text.toList = Date.yearText d.year ++ '-' ::
      (Number.padded 2 d.month ++ '-' :: (Number.padded 2 d.day ++ [])) := by
    rw [Date.text_eq]
    simp
  have blank : ∀ cs : List Char, Text.dropBlank ('-' :: cs) = '-' :: cs := fun _ => rfl
  have htake : takeItems plainItems [] d.text.toList = some (d.fields, []) := by
    rw [htext]
    simp only [plainItems, spacedDateItems, List.cons_append, List.nil_append, takeItems,
      Item.take, Numeric.signed, Numeric.width, takeYear, takeMonth, takeDay, addYear, addMonth,
      addDay, blank, if_true, bind, Option.bind, pure]
    rfl
  unfold readPlainDate? readItems?
  rw [htake]
  exact date?_fields d

end RowScope.Calendar
