import RowScope.Proofs.Text.Trim
import RowScope.Text.Letters

/-!
# Letters, digits and blanks

Letters and digits are those of ASCII, and none of them is blank. So a change in the case of letters
leaves the blanks at the ends of a text as they are (`bareEnds_of_sameLetters`).
-/

namespace RowScope.Text

variable {c : Char} {cs : List Char} {s t : String}

/-- A letter from `A` to `Z` or from `a` to `z`. -/
def IsLetter (c : Char) : Prop := 'A' ≤ c ∧ c ≤ 'Z' ∨ 'a' ≤ c ∧ c ≤ 'z'

/-- A digit from `0` to `9`. -/
def IsDigit (c : Char) : Prop := '0' ≤ c ∧ c ≤ '9'

instance (c : Char) : Decidable (IsLetter c) := inferInstanceAs (Decidable (_ ∨ _))

instance (c : Char) : Decidable (IsDigit c) := inferInstanceAs (Decidable (_ ∧ _))

/-- The letters are those of ASCII. -/
theorem isAlpha_iff : c.isAlpha = true ↔ IsLetter c := by
  show (decide ('A' ≤ c ∧ c ≤ 'Z') || (decide ('a' ≤ c) && decide (c ≤ 'z'))) = true ↔ IsLetter c
  simp only [Bool.or_eq_true, Bool.and_eq_true, decide_eq_true_eq]
  exact Iff.rfl

/-- The letters and digits are those of ASCII. -/
theorem isAlphanum_iff : c.isAlphanum = true ↔ IsLetter c ∨ IsDigit c := by
  show (c.isAlpha || (decide ('0' ≤ c) && decide (c ≤ '9'))) = true ↔ IsLetter c ∨ IsDigit c
  simp only [Bool.or_eq_true, Bool.and_eq_true, decide_eq_true_eq, isAlpha_iff]
  exact Iff.rfl

/-- Letters and digits are not blank. -/
theorem isBlank_of_isAlphanum (h : IsLetter c ∨ IsDigit c) : isBlank c = false := by
  have hcode : 65 ≤ c.toNat ∧ c.toNat ≤ 90 ∨ 97 ≤ c.toNat ∧ c.toNat ≤ 122 ∨
      48 ≤ c.toNat ∧ c.toNat ≤ 57 := by
    rcases h with (h | h) | h
    · exact .inl h
    · exact .inr (.inl h)
    · exact .inr (.inr h)
  simp only [isBlank, Bool.or_eq_false_iff, Bool.and_eq_false_iff, decide_eq_false_iff_not,
    beq_eq_false_iff_ne]
  omega

/-- A character is not blank if it is not in lower case. -/
theorem isBlank_of_toLower (h : isBlank c.toLower = false) : isBlank c = false := by
  unfold Char.toLower at h
  split at h
  · next hupper => exact isBlank_of_isAlphanum (.inl (.inl hupper))
  · exact h

/-- No blank stands at the ends of a text if none does in lower case. -/
theorem bareEnds_of_toLower (h : BareEnds (cs.map Char.toLower)) : BareEnds cs := by
  obtain ⟨hhead, hlast⟩ := h
  rw [List.head?_map] at hhead
  rw [List.getLast?_map] at hlast
  exact ⟨fun c hc => isBlank_of_toLower (hhead _ (Option.mem_map_of_mem _ hc)),
    fun c hc => isBlank_of_toLower (hlast _ (Option.mem_map_of_mem _ hc))⟩

/-- No blank stands at the ends of a text if it has the letters of another one, at whose ends none
does in lower case. -/
theorem bareEnds_of_sameLetters (h : sameLetters s t = true) (ht : BareEnds (lower t).toList) :
    BareEnds s.toList := by
  have hlower : lower s = lower t := eq_of_beq h
  rw [← hlower, lower, String.toList_ofList] at ht
  exact bareEnds_of_toLower ht

end RowScope.Text
