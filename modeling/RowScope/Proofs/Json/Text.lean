import RowScope.Json.Scan
import RowScope.Json.Write
import RowScope.Proofs.Number.Decimal

/-!
# Written JSON

No control character stands in a written JSON text (`Json.space_le`), since strings escape them. The
scanner of strings gives back every string that was written (`scanString_stringText`), so a string
ends where its text says and is determined by it, whatever follows (`stringText_append_inj`).
-/

namespace RowScope.Json

/-! ## Characters of strings -/

/-- A character is written by a short escape, as itself, or by its code if it is a control
character. -/
theorem stringChar_cases (c : Char) :
    (∃ letter, (c, letter) ∈ shortEscapes ∧ stringChar c = ['\\', letter]) ∨
      (' ' ≤ c ∧ c ≠ '"' ∧ c ≠ '\\' ∧ stringChar c = [c]) ∨
      (c.toNat < 32 ∧ stringChar c =
        ['\\', 'u', '0', '0', hexDigit (c.toNat / 16), hexDigit (c.toNat % 16)]) := by
  unfold stringChar
  cases h : shortEscapes.lookup c with
  | some letter =>
    obtain ⟨before, after, hsplit, -⟩ := List.lookup_eq_some_iff.1 h
    exact .inl ⟨letter, hsplit ▸ List.mem_append_right _ List.mem_cons_self, rfl⟩
  | none =>
    have hquote : c ≠ '"' := by
      rintro rfl
      cases h
    have hbackslash : c ≠ '\\' := by
      rintro rfl
      cases h
    by_cases hspace : ' ' ≤ c
    · exact .inr (.inl ⟨hspace, hquote, hbackslash, if_pos hspace⟩)
    · refine .inr (.inr ⟨?_, if_neg hspace⟩)
      exact UInt32.lt_iff_toNat_lt.1 (Char.not_le.1 hspace)

/-- A short escape stands for its character. -/
theorem escaped?_of_mem : ∀ e ∈ shortEscapes, escaped? e.2 = some e.1 ∧ e.2 ≠ 'u' ∧ ' ' ≤ e.2 := by
  decide

/-- The code of a control character is read back. -/
theorem codeUnit?_control : ∀ n < 32,
    codeUnit? '0' '0' (hexDigit (n / 16)) (hexDigit (n % 16)) = some n := by
  decide

/-- The scanner reads the text of a character as one piece that stands for it. -/
theorem scanPieces_stringChar (c : Char) (cs : List Char) : ∃ piece,
    scanPieces (stringChar c ++ cs) = (piece :: (scanPieces cs).1, (scanPieces cs).2) ∧
      ∀ rest, joinPieces none (piece :: rest) = (joinPieces none rest).map (c :: ·) := by
  rcases stringChar_cases c with ⟨letter, hmem, he⟩ | ⟨hspace, hquote, hbackslash, he⟩ | ⟨hc, he⟩
  · obtain ⟨hletter, hu, -⟩ := escaped?_of_mem _ hmem
    refine ⟨.char c, ?_, fun rest => rfl⟩
    rw [he, List.cons_append, List.singleton_append]
    simp [scanPieces, hletter, hu]
  · have hcode : ¬c.toNat < 0x20 := Nat.not_lt.2 (UInt32.le_iff_toNat_le.1 hspace)
    refine ⟨.char c, ?_, fun rest => rfl⟩
    rw [he, List.singleton_append]
    simp [scanPieces, hbackslash, hcode]
  · refine ⟨.unit c.toNat, ?_, fun rest => ?_⟩
    · rw [he]
      simp only [List.cons_append, List.nil_append, scanPieces, codeUnit?_control c.toNat hc]
    · have hhalf : isLow c.toNat = false ∧ isHigh c.toNat = false := by
        simp only [isLow, isHigh, Bool.and_eq_false_iff, decide_eq_false_iff_not]
        omega
      rw [joinPieces.eq_def]
      simp only [hhalf, Bool.false_eq_true, if_false, Char.ofNat_toNat]
      rfl

/-- The scanner of strings gives back what was written. -/
theorem scanString_stringText (s : String) (rest : List Char) :
    scanString (s.toList.flatMap stringChar ++ '"' :: rest) = (⟨.ok s, none⟩, some rest) := by
  have pieces : ∀ cs : List Char, ∃ found,
      scanPieces (cs.flatMap stringChar ++ '"' :: rest) = (found, .ok rest) ∧
        joinPieces none found = .ok cs := by
    intro cs
    induction cs with
    | nil => exact ⟨[], rfl, rfl⟩
    | cons c cs ih =>
      obtain ⟨found, hscan, hjoin⟩ := ih
      obtain ⟨piece, hpiece, hmap⟩ :=
        scanPieces_stringChar c (cs.flatMap stringChar ++ '"' :: rest)
      refine ⟨piece :: found, ?_, ?_⟩
      · rw [List.flatMap_cons, List.append_assoc, hpiece, hscan]
      · rw [hmap, hjoin]
        rfl
  obtain ⟨found, hscan, hjoin⟩ := pieces s.toList
  rw [scanString]
  simp only [hscan, hjoin, Except.map, String.ofList_toList]

/-- A written string ends where its text says and is determined by it. -/
theorem stringText_append_inj {s t : String} {rest more : List Char}
    (h : stringText s ++ rest = stringText t ++ more) : s = t ∧ rest = more := by
  have hs := scanString_stringText s rest
  have ht := scanString_stringText t more
  simp only [stringText, List.cons_append, List.append_assoc, List.nil_append] at h
  rw [(List.cons.inj h).2, ht] at hs
  cases hs
  exact ⟨rfl, rfl⟩

/-! ## Control characters -/

/-- Digits are no control characters. -/
theorem space_le_of_isDigit {c : Char} (h : c.isDigit = true) : ' ' ≤ c := by
  have hzero : '0' ≤ c := by
    simp only [Char.isDigit, Bool.and_eq_true, decide_eq_true_eq] at h
    exact h.1
  exact Char.le_trans (by decide) hzero

/-- The text of a character in a string has no control characters. -/
theorem space_le_stringChar {c d : Char} (h : d ∈ stringChar c) : ' ' ≤ d := by
  have digit : ∀ n < 16, ' ' ≤ hexDigit n := by decide
  rcases stringChar_cases c with ⟨letter, hmem, he⟩ | ⟨hspace, -, -, he⟩ | ⟨hc, he⟩ <;> rw [he] at h
  · obtain ⟨-, -, hletter⟩ := escaped?_of_mem _ hmem
    rcases List.mem_cons.1 h with rfl | h
    · decide
    · exact List.mem_singleton.1 h ▸ hletter
  · exact List.mem_singleton.1 h ▸ hspace
  · simp only [List.mem_cons, List.not_mem_nil, or_false] at h
    rcases h with rfl | rfl | rfl | rfl | rfl | rfl
    · decide
    · decide
    · decide
    · decide
    · exact digit _ (by omega)
    · exact digit _ (Nat.mod_lt _ (by decide))

/-- A written string has no control characters. -/
theorem space_le_stringText {s : String} {c : Char} (h : c ∈ stringText s) : ' ' ≤ c := by
  simp only [stringText, List.mem_append, List.mem_cons, List.mem_flatMap, List.not_mem_nil,
    or_false] at h
  rcases h with (rfl | ⟨d, -, h⟩) | rfl
  · decide
  · exact space_le_stringChar h
  · decide

/-- The text of an integer has no control characters. -/
theorem space_le_intText {n : Int} {c : Char} (h : c ∈ Number.intText n) : ' ' ≤ c := by
  cases n with
  | ofNat n => exact space_le_of_isDigit (Number.isDigit_of_mem_natText h)
  | negSucc n =>
    rcases List.mem_cons.1 h with rfl | h
    · decide
    · exact space_le_of_isDigit (Number.isDigit_of_mem_natText h)

mutual

/-- A JSON text has no control characters. -/
theorem space_le : (j : Json) → ∀ c ∈ j.chars, ' ' ≤ c
  | .null | .bool true | .bool false => by rw [Json.chars]; simp
  | .int n => fun _ h => space_le_intText h
  | .str s => fun _ h => space_le_stringText h
  | .arr items => by
    intro c h
    simp only [Json.chars, List.mem_append, List.mem_cons, List.not_mem_nil, or_false] at h
    rcases h with (rfl | h) | rfl
    · decide
    · exact space_le_items items true c h
    · decide
  | .obj members => by
    intro c h
    simp only [Json.chars, List.mem_append, List.mem_cons, List.not_mem_nil, or_false] at h
    rcases h with (rfl | h) | rfl
    · decide
    · exact space_le_members members true c h
    · decide

/-- The texts of items have no control characters. -/
theorem space_le_items : (items : List Json) → ∀ first, ∀ c ∈ Json.itemsChars first items, ' ' ≤ c
  | [] => fun _ _ h => absurd h List.not_mem_nil
  | item :: items => by
    intro first c h
    rw [Json.itemsChars, List.mem_append, List.mem_append] at h
    rcases h with (h | h) | h
    · split at h
      · exact absurd h List.not_mem_nil
      · rw [List.mem_singleton.1 h]
        decide
    · exact space_le item c h
    · exact space_le_items items false c h

/-- The texts of members have no control characters. -/
theorem space_le_members :
    (members : List (String × Json)) → ∀ first, ∀ c ∈ Json.membersChars first members, ' ' ≤ c
  | [] => fun _ _ h => absurd h List.not_mem_nil
  | (key, value) :: members => by
    intro first c h
    simp only [Json.membersChars, List.mem_append, List.mem_cons] at h
    rcases h with ((h | h) | rfl | h) | h
    · split at h
      · exact absurd h List.not_mem_nil
      · rw [List.mem_singleton.1 h]
        decide
    · exact space_le_stringText h
    · decide
    · exact space_le value c h
    · exact space_le_members members false c h

end

end RowScope.Json
