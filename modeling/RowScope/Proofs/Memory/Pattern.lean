import RowScope.Memory.Pattern

/-!
# The language of patterns

`Like` says what a pattern means, one rule for each way to read its next character, and without a
table: a text matches if it falls into consecutive pieces that the pattern takes one after the
other. `matchesPattern_iff` says that the table of reached positions decides this language. The
table is read row by row: after each element it marks the beginnings of the text that the elements
so far take (`Marks.advance`), so after the last one its end marks a match.
-/

namespace RowScope

/-- A pattern matches a text in lower case. -/
inductive Like : List Char → List Char → Prop where
  /-- The empty pattern matches the empty text. -/
  | nil : Like [] []
  /-- A percent sign takes any run of characters, the empty one included. -/
  | anyText {rest text : List Char} (run : List Char) : Like rest text →
    Like ('%' :: rest) (run ++ text)
  /-- An underscore takes one character. -/
  | anyChar {rest text : List Char} (d : Char) : Like rest text → Like ('_' :: rest) (d :: text)
  /-- A backslash and a character after it take that character, in either case. -/
  | escaped {rest text : List Char} (c : Char) : Like rest text →
    Like ('\\' :: c :: rest) (Text.lowerFirst c :: text)
  /-- A backslash at the end takes a backslash. -/
  | loneBackslash : Like ['\\'] ['\\']
  /-- Any other character takes itself, in either case. -/
  | plain {rest text : List Char} {c : Char} : c ≠ '%' → c ≠ '_' → c ≠ '\\' → Like rest text →
    Like (c :: rest) (Text.lowerFirst c :: text)

/-! ## Elements and pieces -/

/-- An element of a pattern takes a piece of a text in lower case. -/
def PatternItem.Takes : PatternItem → List Char → Prop
  | anyText, _ => True
  | anyChar, piece => ∃ d, piece = [d]
  | literal c, piece => piece = [Text.lowerFirst c]

/-- Elements take consecutive pieces of a text, one each, and leave nothing of it. -/
def TakesAll : List PatternItem → List Char → Prop
  | [], text => text = []
  | item :: items, text => ∃ piece rest, text = piece ++ rest ∧ item.Takes piece ∧
    TakesAll items rest

/-- A literal element takes one character. -/
theorem takesAll_literal {c : Char} {items : List PatternItem} {text : List Char} :
    TakesAll (.literal c :: items) text ↔
      ∃ rest, text = Text.lowerFirst c :: rest ∧ TakesAll items rest := by
  constructor
  · rintro ⟨piece, rest, rfl, rfl, h⟩
    exact ⟨rest, rfl, h⟩
  · rintro ⟨rest, rfl, h⟩
    exact ⟨[Text.lowerFirst c], rest, rfl, rfl, h⟩

/-- A character that is read alone is not a backslash, which would be read with the character after
it, or as the last one. -/
theorem ne_backslash_of_unread {c : Char} {rest : List Char} (hlone : c = '\\' → rest = [] → False)
    (hescape : ∀ d tail, c = '\\' → rest = d :: tail → False) : c ≠ '\\' := by
  rintro rfl
  cases rest with
  | nil => exact hlone rfl rfl
  | cons d tail => exact hescape d tail rfl rfl

/-- The elements of a pattern take what the pattern matches. -/
theorem like_iff_takesAll (pattern text : List Char) :
    Like pattern text ↔ TakesAll (patternItems pattern) text := by
  induction pattern using patternItems.induct generalizing text with
  | case1 =>
    rw [patternItems, TakesAll]
    constructor
    · intro h
      cases h
      rfl
    · rintro rfl
      exact .nil
  | case2 rest ih =>
    rw [patternItems, TakesAll]
    constructor
    · intro h
      cases h with
      | anyText run h => exact ⟨run, _, rfl, trivial, (ih _).1 h⟩
      | plain h _ _ _ => exact absurd rfl h
    · rintro ⟨run, tail, rfl, -, h⟩
      exact .anyText run ((ih tail).2 h)
  | case3 rest ih =>
    rw [patternItems, TakesAll]
    constructor
    · intro h
      cases h with
      | anyChar d h => exact ⟨[d], _, rfl, ⟨d, rfl⟩, (ih _).1 h⟩
      | plain _ h _ _ => exact absurd rfl h
    · rintro ⟨_, tail, rfl, ⟨d, rfl⟩, h⟩
      exact .anyChar d ((ih tail).2 h)
  | case4 =>
    have hfold : Text.lowerFirst '\\' = '\\' := by decide
    rw [patternItems, takesAll_literal, hfold]
    constructor
    · intro h
      cases h with
      | loneBackslash => exact ⟨[], rfl, rfl⟩
      | plain _ _ h _ => exact absurd rfl h
    · rintro ⟨rest, rfl, rfl⟩
      exact .loneBackslash
  | case5 c rest ih =>
    rw [patternItems, takesAll_literal]
    constructor
    · intro h
      cases h with
      | escaped _ h => exact ⟨_, rfl, (ih _).1 h⟩
      | plain _ _ h _ => exact absurd rfl h
    · rintro ⟨tail, rfl, h⟩
      exact .escaped c ((ih tail).2 h)
  | case6 c rest hpercent hunderscore hlone hescape ih =>
    have hbackslash : c ≠ '\\' := ne_backslash_of_unread hlone hescape
    rw [patternItems, takesAll_literal]
    · constructor
      · intro h
        cases h with
        | anyText => exact absurd rfl hpercent
        | anyChar => exact absurd rfl hunderscore
        | escaped => exact absurd rfl hbackslash
        | loneBackslash => exact absurd rfl hbackslash
        | plain _ _ _ h => exact ⟨_, rfl, (ih _).1 h⟩
      · rintro ⟨tail, rfl, h⟩
        exact .plain hpercent hunderscore hbackslash ((ih tail).2 h)
    all_goals assumption

/-! ## The table -/

/-- A row of the table marks the positions of a text before which what stands has a property. -/
structure Marks (text : List Char) (reached : List Bool) (P : List Char → Prop) : Prop where
  /-- The row has an entry for each position, the end included. -/
  length : reached.length = text.length + 1
  /-- A position is marked if what stands before it has the property. -/
  marked : ∀ i ≤ text.length, reached[i]? = some true ↔ P (text.take i)

variable {text : List Char} {reached : List Bool} {P : List Char → Prop}

/-- A row marks the positions for an equivalent property as well. -/
theorem Marks.congr {Q : List Char → Prop} (h : Marks text reached P) (hpq : ∀ t, P t ↔ Q t) :
    Marks text reached Q :=
  ⟨h.length, fun i hi => (h.marked i hi).trans (hpq _)⟩

/-- Before the first element, the first position alone is marked. -/
theorem marks_start (text : List Char) :
    Marks text (true :: text.map fun _ => false) fun t => t = [] := by
  refine ⟨by simp, fun i hi => ?_⟩
  cases i with
  | zero => simp
  | succ i =>
    have hne : text ≠ [] := by
      rintro rfl
      exact absurd hi (Nat.not_succ_le_zero i)
    have hclear : (text.map fun _ => false)[i]? = some false := by
      rw [List.getElem?_map, List.getElem?_eq_getElem hi]
      rfl
    rw [List.getElem?_cons_succ, hclear]
    simp [hne]

/-- The positions from a reached one on are reached. -/
theorem length_reachedSince (before : Bool) (reached : List Bool) :
    (reachedSince before reached).length = reached.length := by
  induction reached generalizing before with
  | nil => rfl
  | cons here rest ih => rw [reachedSince, List.length_cons, List.length_cons, ih]

/-- A position is reached by any run if one before it was, or the position itself. -/
theorem getElem?_reachedSince {before : Bool} {reached : List Bool} {i : Nat}
    (hi : i < reached.length) :
    (reachedSince before reached)[i]? = some true ↔
      before = true ∨ ∃ j ≤ i, reached[j]? = some true := by
  induction reached generalizing before i with
  | nil => exact absurd hi (Nat.not_lt_zero i)
  | cons here rest ih =>
    rw [reachedSince]
    cases i with
    | zero => simp
    | succ i =>
      rw [List.getElem?_cons_succ, ih (Nat.lt_of_succ_lt_succ hi), Bool.or_eq_true, or_assoc]
      -- The entry in front is the position zero, the others are one further.
      refine or_congr_right ⟨?_, ?_⟩
      · rintro (rfl | ⟨j, hj, hreached⟩)
        · exact ⟨0, Nat.zero_le _, rfl⟩
        · exact ⟨j + 1, Nat.succ_le_succ hj, hreached⟩
      · rintro ⟨j, hj, hreached⟩
        cases j with
        | zero => exact .inl (Option.some.inj hreached)
        | succ j => exact .inr ⟨j, Nat.le_of_succ_le_succ hj, hreached⟩

/-- An element that takes one character, if it is a right one, moves the marks by one position. -/
theorem Marks.advance_char (h : Marks text reached P) (right : Char → Bool) :
    Marks text (false :: reached.zipWith (fun here d => here && right d) text)
      fun t => ∃ before d, t = before ++ [d] ∧ P before ∧ right d = true := by
  constructor
  · simp [h.length]
  · intro i hi
    cases i with
    | zero => simp
    | succ i =>
      have hlt : i < text.length := hi
      have hreached : i < reached.length := by rw [h.length]; omega
      have hmarked := h.marked i (Nat.le_of_lt hlt)
      have htake : text.take (i + 1) = text.take i ++ [text[i]] := List.take_succ_eq_append_getElem hlt
      rw [List.getElem?_eq_getElem hreached, Option.some.injEq] at hmarked
      rw [List.getElem?_cons_succ, List.getElem?_zipWith, List.getElem?_eq_getElem hlt,
        List.getElem?_eq_getElem hreached, htake]
      simp only [Option.some.injEq, Bool.and_eq_true, hmarked]
      constructor
      · rintro ⟨hbefore, hright⟩
        exact ⟨_, _, rfl, hbefore, hright⟩
      · rintro ⟨before, d, heq, hbefore, hright⟩
        obtain ⟨rfl, hd⟩ := List.append_inj' heq rfl
        cases hd
        exact ⟨hbefore, hright⟩

/-- After an element the marked positions are those that a piece it takes leads to. -/
theorem Marks.advance (h : Marks text reached P) (item : PatternItem) :
    Marks text (item.advance text reached)
      fun t => ∃ before piece, t = before ++ piece ∧ P before ∧ item.Takes piece := by
  cases item with
  | anyText =>
    refine ⟨(length_reachedSince false reached).trans h.length, fun i hi => ?_⟩
    rw [PatternItem.advance, getElem?_reachedSince (by rw [h.length]; omega)]
    simp only [Bool.false_eq_true, false_or, PatternItem.Takes, and_true]
    constructor
    · rintro ⟨j, hj, hreached⟩
      refine ⟨text.take j, (text.take i).drop j, ?_, (h.marked j (Nat.le_trans hj hi)).1 hreached⟩
      rw [← List.take_append_drop j (text.take i), List.take_take, Nat.min_eq_left hj,
        List.drop_append_of_le_length (by simp; omega)]
      simp
    · rintro ⟨before, piece, heq, hbefore⟩
      have hle : before.length ≤ i := by
        have hlength := congrArg List.length heq
        rw [List.length_take, List.length_append] at hlength
        omega
      refine ⟨before.length, hle, (h.marked _ (Nat.le_trans hle hi)).2 ?_⟩
      have htaken : text.take before.length = before := by
        rw [← Nat.min_eq_left hle, ← List.take_take, heq, List.take_left]
      rwa [htaken]
  | anyChar =>
    have hone := h.advance_char fun _ => true
    simp only [Bool.and_true] at hone
    refine hone.congr fun t => ?_
    constructor
    · rintro ⟨before, d, rfl, hbefore, -⟩
      exact ⟨before, [d], rfl, hbefore, d, rfl⟩
    · rintro ⟨before, _, rfl, hbefore, d, rfl⟩
      exact ⟨before, d, rfl, hbefore, trivial⟩
  | literal c =>
    exact (h.advance_char fun d => d == Text.lowerFirst c).congr fun t => by
      simp [PatternItem.Takes]

/-- After some elements the marked positions are those that pieces taken by them lead to. -/
theorem Marks.foldl_advance (h : Marks text reached P) (items : List PatternItem) :
    Marks text (items.foldl (PatternItem.advance text) reached)
      fun t => ∃ before after, t = before ++ after ∧ P before ∧ TakesAll items after := by
  induction items generalizing reached P with
  | nil => exact h.congr fun t => by simp [TakesAll]
  | cons item items ih =>
    refine (ih (h.advance item)).congr fun t => ?_
    simp only [TakesAll]
    constructor
    · rintro ⟨_, rest, rfl, ⟨before, piece, rfl, hbefore, hpiece⟩, hrest⟩
      exact ⟨before, piece ++ rest, by simp, hbefore, piece, rest, rfl, hpiece, hrest⟩
    · rintro ⟨before, _, rfl, hbefore, piece, rest, rfl, hpiece, hrest⟩
      exact ⟨before ++ piece, rest, by simp, ⟨before, piece, rfl, hbefore, hpiece⟩, hrest⟩

/-- The end of a row is marked if the whole text has the property. -/
theorem Marks.getLastD (h : Marks text reached P) : reached.getLastD false = true ↔ P text := by
  have hlast : reached.getLast? = reached[text.length]? := by
    rw [List.getLast?_eq_getElem?, h.length, Nat.add_sub_cancel]
  have hmarked := h.marked text.length (Nat.le_refl _)
  rw [List.take_length] at hmarked
  rw [← hmarked, List.getLastD_eq_getLast?, hlast]
  cases reached[text.length]? <;> simp

/-- The table decides whether some elements take a text as a whole. -/
theorem matchesItems_iff (text : List Char) (items : List PatternItem) :
    matchesItems text items = true ↔ TakesAll items text := by
  have hmarks := (marks_start text).foldl_advance items
  refine hmarks.getLastD.trans ⟨?_, fun h => ⟨[], text, rfl, rfl, h⟩⟩
  rintro ⟨_, after, rfl, rfl, h⟩
  exact h

/-- A text matches a pattern in letters of either case exactly if the pattern, read character by
character, takes the text in lower case. -/
theorem matchesPattern_iff (text pattern : String) :
    matchesPattern text pattern = true ↔
      Like pattern.toList (text.toList.map Text.lowerFirst) := by
  rw [like_iff_takesAll]
  exact matchesItems_iff _ _

end RowScope
