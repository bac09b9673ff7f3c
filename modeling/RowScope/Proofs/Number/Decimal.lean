import RowScope.Number.Decimal

/-!
# Digits

The digits of a number give it back, with zeros before them or without, so the texts of natural
numbers and of integers are different for different numbers. No needless zero stands before the
digits (`natText_ne_zero_cons`), and they end where no digit follows
(`takeWhile_isDigit_append`).
-/

namespace RowScope.Number

variable {n m : Nat}

/-- The digits of a number are digits. -/
theorem isDigit_of_mem_natText {c : Char} (h : c ∈ natText n) : c.isDigit = true :=
  Nat.isDigit_of_mem_toDigits (by decide) (by decide) h

/-- A number has a digit. -/
theorem natText_ne_nil (n : Nat) : natText n ≠ [] := Nat.toDigits_ne_nil

/-- The digits of a number write it. -/
theorem digitsValue_natText (n : Nat) : digitsValue (natText n) = n :=
  Nat.ofDigitChars_toDigits (by decide) (by decide)

/-- Zeros before the digits of a number do not count. -/
theorem digitsValue_padded (width n : Nat) : digitsValue (padded width n) = n := by
  rw [padded, digitsValue, Nat.ofDigitChars_append, Nat.ofDigitChars_replicate_zero, Nat.mul_zero]
  exact digitsValue_natText n

/-- A padded number has a digit. -/
theorem padded_ne_nil (width n : Nat) : padded width n ≠ [] := fun h =>
  natText_ne_nil n (List.append_eq_nil_iff.1 h).2

/-- A number that does not need more digits than it is padded to has so many. -/
theorem length_padded {width : Nat} (hwidth : 0 < width) (hn : n < Nat.pow 10 width) :
    (padded width n).length = width := by
  have hlength : (natText n).length ≤ width :=
    (Nat.length_toDigits_le_iff (by decide) hwidth).2 hn
  rw [padded, List.length_append, List.length_replicate]
  omega

/-- Padded numbers are made of digits. -/
theorem isDigit_of_mem_padded {width : Nat} {c : Char} (h : c ∈ padded width n) :
    c.isDigit = true := by
  rcases List.mem_append.1 h with h | h
  · rw [List.eq_of_mem_replicate h]
    decide
  · exact isDigit_of_mem_natText h

/-- A number is determined by its digits. -/
theorem natText_injective (h : natText n = natText m) : n = m := by
  rw [← digitsValue_natText n, h, digitsValue_natText]

/-- A number is determined by its padded digits. -/
theorem padded_injective {width : Nat} (h : padded width n = padded width m) : n = m := by
  rw [← digitsValue_padded width n, h, digitsValue_padded]

/-- Digits do not begin with a sign. -/
theorem ne_sign_cons {digits rest : List Char} (h : ∀ c ∈ digits, c.isDigit = true) {sign : Char}
    (hsign : sign.isDigit = false) : digits ≠ sign :: rest := by
  rintro rfl
  rw [h sign List.mem_cons_self] at hsign
  cases hsign

/-- An integer is determined by its text. -/
theorem intText_injective {a b : Int} (h : intText a = intText b) : a = b := by
  have digits : ∀ n, ∀ c ∈ natText n, c.isDigit = true := fun _ _ => isDigit_of_mem_natText
  cases a with
  | ofNat n =>
    cases b with
    | ofNat m => rw [natText_injective h]
    | negSucc m => exact absurd h (ne_sign_cons (digits n) (by decide))
  | negSucc n =>
    cases b with
    | ofNat m => exact absurd h.symm (ne_sign_cons (digits m) (by decide))
    | negSucc m => rw [Nat.succ.inj (natText_injective (List.cons.inj h).2)]

/-- Digits end where no digit follows. -/
theorem takeWhile_isDigit_append {digits rest : List Char} (h : ∀ c ∈ digits, c.isDigit = true)
    (hrest : ∀ c ∈ rest.head?, c.isDigit = false) :
    (digits ++ rest).takeWhile Char.isDigit = digits ∧
      (digits ++ rest).dropWhile Char.isDigit = rest := by
  have none : rest.takeWhile Char.isDigit = [] ∧ rest.dropWhile Char.isDigit = rest := by
    cases rest with
    | nil => exact ⟨rfl, rfl⟩
    | cons c rest => simp [hrest c rfl]
  rw [List.takeWhile_append_of_pos h, List.dropWhile_append_of_pos h, none.1, none.2,
    List.append_nil]
  exact ⟨rfl, rfl⟩

/-- The digits of a number do not begin with a zero, unless it is all of them. -/
theorem natText_ne_zero_cons (n : Nat) (c : Char) (cs : List Char) :
    natText n ≠ '0' :: c :: cs := by
  -- The first digit of a number that is not zero is none.
  have first : ∀ n, n ≠ 0 → (natText n).head? ≠ some '0' := by
    intro n
    induction n using Nat.strongRecOn with
    | ind n ih =>
      intro hn
      by_cases hlt : n < 10
      · have digit : ∀ n < 10, n ≠ 0 → n.digitChar ≠ '0' := by decide
        rw [natText, Nat.toDigits_of_lt_base hlt]
        simpa using digit n hlt hn
      · have hhead := ih (n / 10) (by omega) (by omega)
        obtain ⟨d, ds, hds⟩ := List.exists_cons_of_ne_nil (natText_ne_nil (n / 10))
        rw [natText, Nat.toDigits_of_base_le (by decide) (by omega)]
        show (natText (n / 10) ++ _).head? ≠ _
        rw [hds] at hhead ⊢
        exact hhead
  intro h
  by_cases hn : n = 0
  · subst hn
    cases h
  · exact first n hn (by rw [h]; rfl)

end RowScope.Number
