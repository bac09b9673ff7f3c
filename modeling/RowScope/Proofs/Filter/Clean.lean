import RowScope.Proofs.Filter.FreeText
import RowScope.Proofs.Text.Trim

/-!
# Sanitized texts

What is kept of the texts of a filter value is never empty and has no NUL, and the texts that a
column must equal are kept once each. A text is trimmed before NUL is taken out of it, so a blank
that NUL shields from trimming (`ShieldsBlank`) is left at an end of what is kept. This is the only
way in which one gets there, and without it sanitizing a second time changes nothing
(`sanitized_texts_clean`).
-/

namespace RowScope

open RowScope.Text

/-! ## Blanks behind NUL -/

/-- A blank stands behind NUL: before it the text has nothing but blanks and NUL, a NUL among them,
and after it something else than blanks. -/
def BlankBehindNul (cs : List Char) : Prop :=
  ∃ a c b, cs = a ++ c :: b ∧ isBlank c = true ∧
    (∀ d ∈ a, isBlank d = true ∨ d = '\x00') ∧ '\x00' ∈ a ∧ ∃ d ∈ b, isBlank d = false

/-- NUL shields a blank from trimming, at the front of the text or, read backwards, at its end. -/
def ShieldsBlank (s : String) : Prop := BlankBehindNul s.toList ∨ BlankBehindNul s.toList.reverse

/-- The characters other than NUL. -/
def withoutNul (cs : List Char) : List Char := cs.filter fun c => c ≠ '\x00'

/-- The characters that are left once NUL is stripped. -/
theorem toList_stripNul (s : String) : (stripNul s).toList = withoutNul s.toList :=
  String.toList_ofList

/-- NUL is stripped wherever it stands. -/
theorem not_mem_stripNul (s : String) : '\x00' ∉ (stripNul s).toList := by
  rw [toList_stripNul, withoutNul]
  simp

/-- A blank comes first without NUL if only blanks and NUL stand before it. -/
theorem exists_blank_head {a b : List Char} {c : Char} (hc : isBlank c = true)
    (ha : ∀ d ∈ a, isBlank d = true ∨ d = '\x00') :
    ∃ d ∈ (withoutNul (a ++ c :: b)).head?, isBlank d = true := by
  have hne : c ≠ '\x00' := by
    rintro rfl
    exact absurd hc (by decide)
  unfold withoutNul
  rw [List.filter_append, List.filter_cons_of_pos (by simpa using hne)]
  cases hfront : a.filter fun c => c ≠ '\x00' with
  | nil => exact ⟨c, rfl, hc⟩
  | cons d front =>
    have hd : d ∈ a.filter fun c => c ≠ '\x00' := hfront ▸ List.mem_cons_self
    obtain ⟨hmem, hkept⟩ := List.mem_filter.1 hd
    exact ⟨d, rfl, (ha d hmem).resolve_right (of_decide_eq_true hkept)⟩

/-- A blank stands behind NUL if one comes first in the trimmed text without NUL. -/
theorem blankBehindNul_iff {cs : List Char} :
    BlankBehindNul cs ↔ ∃ c ∈ (withoutNul (trimChars cs)).head?, isBlank c = true := by
  constructor
  · rintro ⟨a, c, b, rfl, hc, ha, hnul, d, hd, hbare⟩
    obtain ⟨a₁, a₂, rfl⟩ := List.append_of_mem hnul
    obtain ⟨b₁, b₂, rfl⟩ := List.append_of_mem hd
    -- Trimming stops at the NUL and at the character that is not blank.
    have htrim : trimChars ((a₁ ++ '\x00' :: a₂) ++ c :: (b₁ ++ d :: b₂)) =
        (dropBlank a₁ ++ '\x00' :: a₂) ++ c :: (b₁ ++ d :: dropBlankEnd b₂) := by
      rw [List.append_assoc, List.cons_append, trimChars_append_cons (by decide),
        ← List.cons_append, ← List.append_assoc, dropBlankEnd_append_cons hbare]
      simp
    rw [htrim]
    refine exists_blank_head hc fun e he => ha e ?_
    rcases List.mem_append.1 he with he | he
    · exact List.mem_append_left _ ((List.dropWhile_suffix _).subset he)
    · exact List.mem_append_right _ he
  · rintro ⟨c, hc, hblank⟩
    rw [withoutNul, List.head?_filter, Option.mem_def, List.find?_eq_some_iff_append] at hc
    obtain ⟨-, as, bs, hchars, hskipped⟩ := hc
    have hnul : ∀ d ∈ as, d = '\x00' := fun d hd => by simpa using hskipped d hd
    obtain ⟨front, back, hcs, hfront, -⟩ := exists_margins cs
    obtain ⟨hhead, hlast⟩ := bareEnds_trimChars cs
    rw [hchars] at hhead hlast hcs
    -- The trimmed text does not begin with the blank, nor does it end with it.
    have has : '\x00' ∈ as := by
      cases as with
      | nil => exact absurd (hhead c rfl) (by simp [hblank])
      | cons d as => exact hnul d List.mem_cons_self ▸ List.mem_cons_self
    have hbs : ∃ d ∈ bs, isBlank d = false := by
      rcases List.eq_nil_or_concat bs with rfl | ⟨bs, d, rfl⟩
      · exact absurd (hlast c (by simp)) (by simp [hblank])
      · rw [List.concat_eq_append, ← List.cons_append, ← List.append_assoc,
          List.getLast?_concat] at hlast
        exact ⟨d, by simp, hlast d rfl⟩
    obtain ⟨d, hd, hbare⟩ := hbs
    refine ⟨front ++ as, c, bs ++ back, by rw [hcs]; simp, hblank, ?_, ?_, ?_⟩
    · intro e he
      exact (List.mem_append.1 he).imp (hfront e) (hnul e)
    · exact List.mem_append_right _ has
    · exact ⟨d, List.mem_append_left _ hd, hbare⟩

/-- A trimmed text without NUL has a blank at an end only if NUL shielded one. -/
theorem bareEnds_stripNul_trim {s : String} :
    BareEnds (stripNul (Text.trim s)).toList ↔ ¬ShieldsBlank s := by
  have hside : ∀ cs : List Char, (∀ c ∈ (withoutNul (trimChars cs)).head?, isBlank c = false) ↔
      ¬BlankBehindNul cs := by
    intro cs
    rw [blankBehindNul_iff]
    simp
  have hback : (withoutNul (trimChars s.toList)).getLast? =
      (withoutNul (trimChars s.toList.reverse)).head? := by
    rw [trimChars_reverse, withoutNul, withoutNul, List.filter_reverse, List.head?_reverse]
  rw [toList_stripNul, Text.trim, String.toList_ofList, BareEnds, hback, hside, hside, ← not_or]
  rfl

/-! ## Distinct texts -/

/-- The members of a list at their first places come once each, and none of them has been seen. -/
theorem nodup_distinct {α : Type} [BEq α] [LawfulBEq α] (seen xs : List α) :
    (distinct seen xs).Nodup := by
  induction xs generalizing seen with
  | nil => exact List.nodup_nil
  | cons x xs ih =>
    rw [distinct]
    split
    · exact ih seen
    · -- What follows has not been seen up to here, this member included.
      refine List.nodup_cons.2 ⟨fun hmem => ?_, ih (x :: seen)⟩
      exact (mem_distinct.1 hmem).2 List.mem_cons_self

/-- Members that come once each and have not been seen are all kept. -/
theorem distinct_of_nodup {α : Type} [BEq α] [LawfulBEq α] {seen xs : List α} (h : xs.Nodup)
    (hseen : ∀ x ∈ xs, x ∉ seen) : distinct seen xs = xs := by
  induction xs generalizing seen with
  | nil => rfl
  | cons x xs ih =>
    obtain ⟨hx, hxs⟩ := List.nodup_cons.1 h
    have hnew : seen.contains x = false := by simpa using hseen x List.mem_cons_self
    rw [distinct, hnew, if_neg (by decide), ih hxs]
    intro y hy hmem
    rcases List.mem_cons.1 hmem with rfl | hmem
    · exact hx hy
    · exact hseen y (List.mem_cons_of_mem _ hy) hmem

/-- The text that a column must equal is the trimmed one without NUL, unless nothing is left. -/
theorem exactOf_eq_some {e s : String} :
    exactOf e = some s ↔ s ≠ "" ∧ stripNul (Text.trim e) = s := by
  unfold exactOf trimmed?
  split
  · next hblank =>
    rw [String.isEmpty_iff.1 hblank]
    simp only [Option.bind_none, reduceCtorEq, false_iff, not_and]
    rintro hne rfl
    exact hne rfl
  · simp only [Option.bind_some]
    split
    · next hempty =>
      simp only [reduceCtorEq, false_iff, not_and]
      rintro hne rfl
      exact hne (String.isEmpty_iff.1 hempty)
    · next hne =>
      rw [Option.some.injEq]
      constructor
      · rintro rfl
        exact ⟨fun he => hne (String.isEmpty_iff.2 he), rfl⟩
      · exact fun h => h.2

/-! ## Sanitizing again -/

section Tokens

variable {tokens : List String}

/-- Texts that come once each, are not empty and have neither NUL nor blanks at their ends are what
a column must equal that must equal one of them. -/
theorem exactTexts_of_clean (hsome : tokens ≠ []) (hnodup : tokens.Nodup)
    (hkept : ∀ s ∈ tokens, s ≠ "" ∧ '\x00' ∉ s.toList)
    (hbare : ∀ s ∈ tokens, BareEnds s.toList) :
    (FilterValue.many tokens).exactTexts = .ok tokens := by
  have hnonempty : tokens.filter (fun s => !s.isEmpty) = tokens :=
    List.filter_eq_self.2 fun s hs => by simpa using (hkept s hs).1
  have htrim : tokens.map Text.trim = tokens :=
    (List.map_congr_left fun s hs => trim_eq_self_iff.2 (hbare s hs)).trans (List.map_id tokens)
  have hstrip : tokens.map stripNul = tokens :=
    (List.map_congr_left fun s hs => stripNul_eq_self (hkept s hs).2).trans (List.map_id tokens)
  have htrimmed : (FilterValue.many tokens).trimmed = tokens := by
    rw [FilterValue.trimmed, FilterValue.entries, htrim, hnonempty]
  refine (usable_eq_ok List.length rfl).2 ⟨?_, hsome⟩
  rw [htrimmed, hstrip, hnonempty, distinct_of_nodup hnodup fun _ _ => List.not_mem_nil]

/-- Texts without NUL that are sanitized to themselves have no blanks at their ends. -/
theorem bareEnds_of_exactTexts (hnul : ∀ s ∈ tokens, '\x00' ∉ s.toList)
    (h : (FilterValue.many tokens).exactTexts = .ok tokens) :
    ∀ s ∈ tokens, BareEnds s.toList := by
  intro s hs
  obtain ⟨e, he, hread⟩ := (readsEach_exactTexts.mem h s).1 hs
  obtain ⟨-, rfl⟩ := exactOf_eq_some.1 hread
  have hnone : '\x00' ∉ (Text.trim e).toList := by
    rw [Text.trim, String.toList_ofList, mem_trimChars (by decide)]
    exact hnul e he
  rw [stripNul_eq_self hnone, Text.trim, String.toList_ofList]
  exact bareEnds_trimChars e.toList

end Tokens

/-! ## Insides of patterns -/

/-- What stands in a pattern between the two percent signs. -/
theorem containsPattern_eq_iff {escapeWildcards : Bool} {t s : String} :
    containsPattern escapeWildcards t = "%" ++ s ++ "%" ↔
      patternBody escapeWildcards t = s.toList := by
  rw [← String.toList_inj]
  simp [containsPattern]

/-- An escape is never NUL, and NUL is stripped. -/
theorem not_mem_patternBody (escapeWildcards : Bool) (s : String) :
    '\x00' ∉ patternBody escapeWildcards s := by
  have hstripped := not_mem_stripNul s
  unfold patternBody
  cases escapeWildcards with
  | false => exact hstripped
  | true =>
    rw [if_pos rfl, List.mem_flatMap]
    rintro ⟨c, hc, hmem⟩
    rw [escapedChar] at hmem
    split at hmem
    · have hzero : '\x00' = c := by simpa using hmem
      exact hstripped (hzero ▸ hc)
    · exact hstripped (List.mem_singleton.1 hmem ▸ hc)

/-- Escapes put no blanks at the ends of a text and take none away. -/
theorem bareEnds_escaped (cs : List Char) : BareEnds (cs.flatMap escapedChar) ↔ BareEnds cs := by
  have hhead : (∀ c ∈ (cs.flatMap escapedChar).head?, isBlank c = false) ↔
      ∀ c ∈ cs.head?, isBlank c = false := by
    cases cs with
    | nil => rfl
    | cons c cs =>
      rw [List.flatMap_cons, escapedChar]
      split
      · next hspecial =>
        -- Neither the backslash in front nor the character behind it is blank.
        have hbare : isBlank c = false := by
          rcases hspecial with rfl | rfl | rfl <;> rfl
        have hbackslash : isBlank '\\' = false := rfl
        simp [hbare, hbackslash]
      · simp
  have hlast : (cs.flatMap escapedChar).getLast? = cs.getLast? := by
    rcases List.eq_nil_or_concat cs with rfl | ⟨cs, c, rfl⟩
    · rfl
    · rw [List.concat_eq_append, List.flatMap_append, List.flatMap_singleton, escapedChar]
      split <;> simp
  rw [BareEnds, BareEnds, hhead, hlast]

/-- The inside of a pattern has a blank at an end only if the text without NUL has. -/
theorem bareEnds_patternBody (escapeWildcards : Bool) (s : String) :
    BareEnds (patternBody escapeWildcards s) ↔ BareEnds (stripNul s).toList := by
  unfold patternBody
  cases escapeWildcards with
  | false => rfl
  | true => exact bareEnds_escaped _

/-! ## Sanitized values -/

/-- What is left of the texts of a value has no blanks at its ends if NUL shields none in them. -/
theorem forall_bareEnds_iff {value : FilterValue} :
    (∀ e ∈ value.entries, stripNul (Text.trim e) ≠ "" →
        BareEnds (stripNul (Text.trim e)).toList) ↔
      ∀ e ∈ value.entries, ¬ShieldsBlank e := by
  constructor
  · intro hbare e he
    rw [← bareEnds_stripNul_trim]
    by_cases hempty : stripNul (Text.trim e) = ""
    · rw [hempty]
      exact trimChars_eq_self_iff.1 rfl
    · exact hbare e he hempty
  · exact fun h e he _ => bareEnds_stripNul_trim.2 (h e he)

/-- The texts that a column must equal are not empty, have no NUL and come once each. Exactly if NUL
shields no blank in a text of the value, they have no blanks at their ends, and sanitizing them
again gives them back. -/
theorem exactTexts_clean {value : FilterValue} {tokens : List String}
    (h : value.exactTexts = .ok tokens) :
    tokens.Nodup ∧ (∀ s ∈ tokens, s ≠ "" ∧ '\x00' ∉ s.toList) ∧
      ((∀ s ∈ tokens, BareEnds s.toList) ↔ ∀ e ∈ value.entries, ¬ShieldsBlank e) ∧
      ((FilterValue.many tokens).exactTexts = .ok tokens ↔
        ∀ e ∈ value.entries, ¬ShieldsBlank e) := by
  have hmem : ∀ s, s ∈ tokens ↔
      ∃ e ∈ value.entries, s ≠ "" ∧ stripNul (Text.trim e) = s := fun s => by
    rw [readsEach_exactTexts.mem h s]
    simp only [exactOf_eq_some]
  have hnodup : tokens.Nodup := by
    obtain ⟨rfl, -⟩ := (usable_eq_ok List.length rfl).1 h
    exact nodup_distinct [] _
  have hkept : ∀ s ∈ tokens, s ≠ "" ∧ '\x00' ∉ s.toList := by
    intro s hs
    obtain ⟨e, -, hne, rfl⟩ := (hmem s).1 hs
    exact ⟨hne, not_mem_stripNul _⟩
  have hbare : (∀ s ∈ tokens, BareEnds s.toList) ↔ ∀ e ∈ value.entries, ¬ShieldsBlank e := by
    rw [← forall_bareEnds_iff]
    constructor
    · exact fun hbare e he hne => hbare _ ((hmem _).2 ⟨e, he, hne, rfl⟩)
    · intro hbare s hs
      obtain ⟨e, he, hne, rfl⟩ := (hmem s).1 hs
      exact hbare e he hne
  have hsome : tokens ≠ [] := readsEach_exactTexts.ne_nil h
  refine ⟨hnodup, hkept, hbare, fun hagain => hbare.1 ?_, fun hnone => ?_⟩
  · exact bareEnds_of_exactTexts (fun s hs => (hkept s hs).2) hagain
  · exact exactTexts_of_clean hsome hnodup hkept (hbare.2 hnone)

/-- The insides of the patterns of a value are not empty and have no NUL. Exactly if NUL shields no
blank in a text of the value, they have no blanks at their ends. -/
theorem patterns_clean {escapeWildcards : Bool} {value : FilterValue} {patterns : List String}
    (h : value.patterns escapeWildcards = .ok patterns) :
    (∀ p ∈ patterns, ∃ s : String, p = "%" ++ s ++ "%" ∧ s ≠ "" ∧ '\x00' ∉ s.toList) ∧
      ((∀ p ∈ patterns, ∀ s : String, p = "%" ++ s ++ "%" → BareEnds s.toList) ↔
        ∀ e ∈ value.entries, ¬ShieldsBlank e) := by
  have hmem : ∀ p, p ∈ patterns ↔ ∃ e ∈ value.entries, stripNul (Text.trim e) ≠ "" ∧
      containsPattern escapeWildcards (Text.trim e) = p := fun p => by
    rw [(readsEach_patterns escapeWildcards).mem h p]
    simp only [patternOf_eq_some]
  constructor
  · intro p hp
    obtain ⟨e, -, hne, rfl⟩ := (hmem p).1 hp
    have hinside := (String.toList_ofList (l := patternBody escapeWildcards (Text.trim e))).symm
    refine ⟨_, containsPattern_eq_iff.2 hinside, fun hempty => hne ?_, ?_⟩
    · rw [hempty] at hinside
      exact (patternBody_eq_nil _ _).1 hinside
    · rw [← hinside]
      exact not_mem_patternBody _ _
  · rw [← forall_bareEnds_iff]
    constructor
    · intro hbare e he hne
      have hinside := (String.toList_ofList (l := patternBody escapeWildcards (Text.trim e))).symm
      have hends := hbare _ ((hmem _).2 ⟨e, he, hne, rfl⟩) _ (containsPattern_eq_iff.2 hinside)
      rwa [← hinside, bareEnds_patternBody] at hends
    · intro hbare p hp s hs
      obtain ⟨e, he, hne, rfl⟩ := (hmem p).1 hp
      rw [← containsPattern_eq_iff.1 hs, bareEnds_patternBody]
      exact hbare e he hne

/-- What is kept of the texts of a value is not empty and has no NUL, and the texts that a column
must equal come once each. Exactly if NUL shields no blank in a text of the value, what is kept has
no blanks at its ends, and the texts that a column must equal are their own sanitized texts. -/
theorem sanitized_texts_clean (value : FilterValue) :
    (∀ safe, sanitize value .exactText = .ok safe → ∃ tokens, safe = .tokens tokens ∧
      tokens.Nodup ∧ (∀ s ∈ tokens, s ≠ "" ∧ '\x00' ∉ s.toList) ∧
      ((∀ s ∈ tokens, BareEnds s.toList) ↔ ∀ e ∈ value.entries, ¬ShieldsBlank e) ∧
      (sanitize (.many tokens) .exactText = .ok (.tokens tokens) ↔
        ∀ e ∈ value.entries, ¬ShieldsBlank e)) ∧
    ∀ escapeWildcards safe, sanitize value (.freeText escapeWildcards) = .ok safe →
      ∃ patterns, safe = .patterns patterns ∧
        (∀ p ∈ patterns, ∃ s : String, p = "%" ++ s ++ "%" ∧ s ≠ "" ∧ '\x00' ∉ s.toList) ∧
        ((∀ p ∈ patterns, ∀ s : String, p = "%" ++ s ++ "%" → BareEnds s.toList) ↔
          ∀ e ∈ value.entries, ¬ShieldsBlank e) := by
  constructor
  · intro safe h
    obtain ⟨tokens, htokens, rfl⟩ := Traversal.map_eq_ok.1 h
    obtain ⟨hnodup, hkept, hbare, hagain⟩ := exactTexts_clean htokens
    refine ⟨tokens, rfl, hnodup, hkept, hbare, ?_⟩
    rw [← hagain, sanitize, Traversal.map_eq_ok]
    simp
  · intro escapeWildcards safe h
    obtain ⟨patterns, hpatterns, rfl⟩ := Traversal.map_eq_ok.1 h
    exact ⟨patterns, rfl, patterns_clean hpatterns⟩

/-- A text with NUL in front, one with blanks around it, and one that is left of both. -/
def FilterValue.padded : FilterValue := .many ["\x00fifty%", " fifty% ", "a b"]

/-- Texts in which NUL shields no blank are cleaned, as texts that a column must equal and as free
text. -/
theorem sanitized_texts_padded :
    sanitize .padded .exactText = .ok (.tokens ["fifty%", "a b"]) ∧
      (∀ s ∈ ["fifty%", "a b"], BareEnds s.toList) ∧
      sanitize (.many ["fifty%", "a b"]) .exactText = .ok (.tokens ["fifty%", "a b"]) ∧
      sanitize .padded (.freeText true) =
        .ok (.patterns ["%fifty\\%%", "%fifty\\%%", "%a b%"]) ∧
      ∀ p ∈ ["%fifty\\%%", "%fifty\\%%", "%a b%"], ∀ s : String, p = "%" ++ s ++ "%" →
        BareEnds s.toList := by
  have htokens : sanitize .padded .exactText = .ok (.tokens ["fifty%", "a b"]) := rfl
  have hpatterns : sanitize .padded (.freeText true) =
      .ok (.patterns ["%fifty\\%%", "%fifty\\%%", "%a b%"]) := rfl
  have hnone : ∀ e ∈ FilterValue.padded.entries, ¬ShieldsBlank e := by
    simp only [← bareEnds_stripNul_trim]
    decide
  obtain ⟨_, he, -, -, hbare, hagain⟩ := (sanitized_texts_clean .padded).1 _ htokens
  cases he
  obtain ⟨_, he, -, hinside⟩ := (sanitized_texts_clean .padded).2 true _ hpatterns
  cases he
  exact ⟨htokens, hbare.2 hnone, hagain.2 hnone, hpatterns, hinside.2 hnone⟩

/-- A blank behind NUL is kept at the end of a text that a column must equal, and is gone when the
text is sanitized again. A blank between two NUL is taken for free text. -/
theorem shielded_blank_kept :
    sanitize (.single "\x00 a") .exactText = .ok (.tokens [" a"]) ∧
      ¬BareEnds " a".toList ∧
      sanitize (.many [" a"]) .exactText = .ok (.tokens ["a"]) ∧
      sanitize (.single "\x00 \x00") (.freeText false) = .ok (.patterns ["%" ++ " " ++ "%"]) ∧
      ¬BareEnds " ".toList :=
  ⟨rfl, by decide, rfl, rfl, by decide⟩

end RowScope
