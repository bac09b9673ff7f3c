import RowScope.Proofs.Traversal
import RowScope.Rule.Apply

/-!
# Values read text by text

The texts of a filter value are read one by one (`ReadsEach`): what is read from a value is the
readings of its texts, in some order and number, and the value is rejected exactly if none of its
texts has a reading. The readings of one text by itself are given by `patternOf`, `exactOf`,
`memberOf` and `integerOf`, all of the text without blanks around it. So the order of the texts,
repeated texts and texts without a reading do not matter to what is read.
-/

namespace RowScope

variable {α ε δ : Type}

/-- A list is read from a value text by text. -/
structure ReadsEach (read : FilterValue → Except ε (List α)) (reading : String → Option α) :
    Prop where
  /-- The value is taken if one of its texts has a reading. -/
  accepts : ∀ value, (∃ xs, read value = .ok xs) ↔ ∃ e ∈ value.entries, ∃ x, reading e = some x
  /-- What is read are the readings of the texts. -/
  mem : ∀ {value xs}, read value = .ok xs →
    ∀ x, x ∈ xs ↔ ∃ e ∈ value.entries, reading e = some x

/-- A changed error does not change what is read. -/
theorem ReadsEach.mapError {read : FilterValue → Except ε (List α)} {reading : String → Option α}
    (h : ReadsEach read reading) (f : ε → δ) :
    ReadsEach (fun value => (read value).mapError f) reading where
  accepts value := by
    simp only [Traversal.mapError_eq_ok]
    exact h.accepts value
  mem hxs := h.mem (Traversal.mapError_eq_ok.1 hxs)

/-- What is read from a value is not empty. -/
theorem ReadsEach.ne_nil {read : FilterValue → Except ε (List α)} {reading : String → Option α}
    (h : ReadsEach read reading) {value : FilterValue} {xs : List α} (hxs : read value = .ok xs) :
    xs ≠ [] := by
  obtain ⟨e, he, x, hx⟩ := (h.accepts value).1 ⟨xs, hxs⟩
  exact List.ne_nil_of_mem ((h.mem hxs x).2 ⟨e, he, hx⟩)

/-- The members of a list at their first places are those of the list. -/
theorem mem_distinct [BEq α] [LawfulBEq α] {seen xs : List α} {x : α} :
    x ∈ distinct seen xs ↔ x ∈ xs ∧ x ∉ seen := by
  induction xs generalizing seen with
  | nil => simp [distinct]
  | cons y xs ih =>
    rw [distinct]
    split
    · next hseen =>
      -- A member that has been seen is not wanted, so leaving it out changes nothing.
      rw [List.contains_iff_mem] at hseen
      rw [ih, List.mem_cons]
      constructor
      · exact fun h => ⟨.inr h.1, h.2⟩
      · rintro ⟨rfl | h, hn⟩
        · exact absurd hseen hn
        · exact ⟨h, hn⟩
    · next hnew =>
      -- The member is put down here, and among the seen ones from here on.
      rw [List.contains_iff_mem] at hnew
      rw [List.mem_cons, ih, List.mem_cons, List.mem_cons, not_or]
      by_cases hx : x = y
      · subst hx
        simp [hnew]
      · simp [hx]

/-- The distinct members of a list are those of the list. -/
theorem mem_distinct_nil [BEq α] [LawfulBEq α] {xs : List α} {x : α} :
    x ∈ distinct [] xs ↔ x ∈ xs := by
  rw [mem_distinct]
  simp

/-! ## Texts that are not blank -/

/-- A text without the blanks around it, unless it is blank. -/
def trimmed? (e : String) : Option String :=
  if (Text.trim e).isEmpty then none else some (Text.trim e)

/-- A text without the blanks around it is the trimmed one, and not empty. -/
theorem trimmed?_eq_some {e text : String} :
    trimmed? e = some text ↔ Text.trim e = text ∧ text ≠ "" := by
  unfold trimmed?
  split
  · next hblank =>
    rw [String.isEmpty_iff] at hblank
    simp only [hblank, reduceCtorEq, false_iff, not_and, not_not]
    exact Eq.symm
  · next hne =>
    rw [Option.some.injEq]
    constructor
    · rintro rfl
      exact ⟨rfl, mt String.isEmpty_iff.2 hne⟩
    · exact And.left

/-- The trimmed texts of a value are those of its texts. -/
theorem mem_trimmed {value : FilterValue} {text : String} :
    text ∈ value.trimmed ↔ ∃ e ∈ value.entries, trimmed? e = some text := by
  unfold FilterValue.trimmed trimmed?
  rw [List.mem_filter, List.mem_map]
  constructor
  · rintro ⟨⟨e, he, rfl⟩, hne⟩
    exact ⟨e, he, by simpa using hne⟩
  · rintro ⟨e, he, h⟩
    split at h
    · cases h
    · next hne =>
      cases h
      exact ⟨⟨e, he, rfl⟩, by simpa using hne⟩

/-- A list that is kept is not empty. -/
theorem keptOr_eq_ok {reason : RejectReason} {dropped : Nat} {kept xs : List α} :
    keptOr reason dropped kept = .ok xs ↔ kept = xs ∧ xs ≠ [] := by
  unfold keptOr
  cases kept <;> cases xs <;> simp

/-- What a value gives if its trimmed texts are brought into a form and kept unless none is left. -/
theorem usable_eq_ok {reason : RejectReason} (dropped : List String → Nat)
    {form : List String → List α} (hnil : form [] = []) {value : FilterValue} {xs : List α} :
    (do
      let texts ← value.usable
      keptOr reason (dropped texts) (form texts)) = .ok xs ↔ form value.trimmed = xs ∧ xs ≠ [] := by
  unfold FilterValue.usable
  by_cases htrimmed : value.trimmed = []
  · -- A value of blank texts is rejected before the form is made, and its form is empty.
    rw [htrimmed, hnil]
    constructor
    · intro h
      cases h
    · rintro ⟨rfl, hne⟩
      exact absurd rfl hne
  · have husable : keptOr .empty 0 value.trimmed = .ok value.trimmed :=
      keptOr_eq_ok.2 ⟨rfl, htrimmed⟩
    rw [husable]
    exact keptOr_eq_ok

/-- A form of the trimmed texts whose members are the forms of single texts is read text by text. -/
theorem readsEach_usable {reason : RejectReason} (dropped : List String → Nat)
    {form : List String → List α} {one : String → Option α}
    (hform : ∀ texts x, x ∈ form texts ↔ ∃ text ∈ texts, one text = some x) :
    ReadsEach (fun value => do
      let texts ← value.usable
      keptOr reason (dropped texts) (form texts)) (fun e => (trimmed? e).bind one) := by
  -- No texts have no forms, so `usable_eq_ok` applies.
  have hnil : form [] = [] := by
    rw [List.eq_nil_iff_forall_not_mem]
    intro x hx
    obtain ⟨text, htext, -⟩ := (hform [] x).1 hx
    exact absurd htext List.not_mem_nil
  have hmem : ∀ (value : FilterValue) (x : α), x ∈ form value.trimmed ↔
      ∃ e ∈ value.entries, (trimmed? e).bind one = some x := by
    intro value x
    simp only [hform, mem_trimmed, Option.bind_eq_some_iff]
    constructor
    · rintro ⟨text, ⟨e, he, htrim⟩, hone⟩
      exact ⟨e, he, text, htrim, hone⟩
    · rintro ⟨e, he, text, htrim, hone⟩
      exact ⟨text, ⟨e, he, htrim⟩, hone⟩
  have hok : ∀ (value : FilterValue) (xs : List α), (do
      let texts ← value.usable
      keptOr reason (dropped texts) (form texts)) = .ok xs ↔
        form value.trimmed = xs ∧ xs ≠ [] := fun _ _ => usable_eq_ok dropped hnil
  constructor
  · intro value
    simp only [hok]
    constructor
    · rintro ⟨xs, rfl, hne⟩
      obtain ⟨x, hx⟩ := List.exists_mem_of_ne_nil _ hne
      obtain ⟨e, he, hread⟩ := (hmem value x).1 hx
      exact ⟨e, he, x, hread⟩
    · rintro ⟨e, he, x, hread⟩
      exact ⟨_, rfl, List.ne_nil_of_mem ((hmem value x).2 ⟨e, he, hread⟩)⟩
  · intro value xs hxs x
    obtain ⟨rfl, -⟩ := (hok value xs).1 hxs
    exact hmem value x

/-- A text without NUL is left as it is. -/
theorem stripNul_eq_self {s : String} (h : '\x00' ∉ s.toList) : stripNul s = s := by
  have hkept : s.toList.filter (fun c => decide (c ≠ '\x00')) = s.toList :=
    List.filter_eq_self.2 fun c hc => decide_eq_true fun hzero => h (hzero ▸ hc)
  rw [stripNul, hkept, String.ofList_toList]

/-! ## The readings of single texts -/

/-- The pattern of a text. -/
def patternOf (escapeWildcards : Bool) (e : String) : Option String :=
  (trimmed? e).bind fun text =>
    let pattern := containsPattern escapeWildcards text
    if pattern = "%%" then none else some pattern

/-- The text that a column must equal. -/
def exactOf (e : String) : Option String :=
  (trimmed? e).bind fun text => if (stripNul text).isEmpty then none else some (stripNul text)

/-- The member of a vocabulary. -/
def memberOf (vocabulary : Vocabulary) (e : String) : Option String :=
  (trimmed? e).bind fun text => if vocabulary.contains text then some text else none

/-- The member of a vocabulary that a text writes is the trimmed text, and not empty. -/
theorem memberOf_eq_some {vocabulary : Vocabulary} {e text : String} :
    memberOf vocabulary e = some text ↔
      Text.trim e = text ∧ text ≠ "" ∧ vocabulary.contains text = true := by
  simp only [memberOf, Option.bind_eq_some_iff, trimmed?_eq_some, Option.ite_none_right_eq_some,
    Option.some.injEq]
  constructor
  · rintro ⟨_, ⟨htrim, hne⟩, hin, rfl⟩
    exact ⟨htrim, hne, hin⟩
  · rintro ⟨htrim, hne, hin⟩
    exact ⟨text, ⟨htrim, hne⟩, hin, rfl⟩

/-- The integer that a text writes. -/
def integerOf (e : String) : Option Int64 := (trimmed? e).bind Number.readInt64

/-- Patterns are read text by text. -/
theorem readsEach_patterns (escapeWildcards : Bool) :
    ReadsEach (FilterValue.patterns escapeWildcards) (patternOf escapeWildcards) := by
  apply readsEach_usable List.length
  intro texts x
  rw [List.mem_filter, List.mem_map]
  constructor
  · rintro ⟨⟨text, htext, rfl⟩, hne⟩
    exact ⟨text, htext, by simpa using hne⟩
  · rintro ⟨text, htext, h⟩
    dsimp only at h
    split at h
    · cases h
    · next hne =>
      cases h
      exact ⟨⟨text, htext, rfl⟩, by simpa using hne⟩

/-- Exact texts are read text by text. -/
theorem readsEach_exactTexts : ReadsEach FilterValue.exactTexts exactOf := by
  apply readsEach_usable List.length
  intro texts x
  rw [mem_distinct_nil, List.mem_filter, List.mem_map]
  constructor
  · rintro ⟨⟨text, htext, rfl⟩, hne⟩
    exact ⟨text, htext, by simpa using hne⟩
  · rintro ⟨text, htext, h⟩
    split at h
    · cases h
    · next hne =>
      cases h
      exact ⟨⟨text, htext, rfl⟩, by simpa using hne⟩

/-- Members of a vocabulary are read text by text. -/
theorem readsEach_members (vocabulary : Vocabulary) :
    ReadsEach (FilterValue.members vocabulary) (memberOf vocabulary) := by
  apply readsEach_usable fun texts => (texts.filter fun s => !vocabulary.contains s).length
  intro texts x
  rw [mem_distinct_nil, List.mem_filter]
  constructor
  · rintro ⟨htext, hin⟩
    exact ⟨x, htext, if_pos hin⟩
  · rintro ⟨text, htext, h⟩
    split at h
    · next hin =>
      cases h
      exact ⟨htext, hin⟩
    · cases h

/-- Integers are read text by text. -/
theorem readsEach_integers : ReadsEach FilterValue.integers integerOf := by
  apply readsEach_usable List.length
  intro texts x
  exact List.mem_filterMap

/-- Texts with a meaning are read text by text. -/
theorem readsEach_meanings (meaning : String → Option α) :
    ReadsEach (fun value => value.meanings meaning) meaning := by
  -- Here texts are not trimmed first, so `readsEach_usable` does not apply.
  have hok : ∀ (value : FilterValue) (xs : List α), value.meanings meaning = .ok xs ↔
      value.entries.filterMap meaning = xs ∧ xs ≠ [] := by
    intro value xs
    unfold FilterValue.meanings
    cases value.entries.filterMap meaning <;> cases xs <;> simp
  constructor
  · intro value
    simp only [hok]
    constructor
    · rintro ⟨xs, rfl, hne⟩
      obtain ⟨x, hx⟩ := List.exists_mem_of_ne_nil _ hne
      obtain ⟨e, he, hread⟩ := List.mem_filterMap.1 hx
      exact ⟨e, he, x, hread⟩
    · rintro ⟨e, he, x, hread⟩
      exact ⟨_, rfl, List.ne_nil_of_mem (List.mem_filterMap.2 ⟨e, he, hread⟩)⟩
  · intro value xs hxs x
    obtain ⟨rfl, -⟩ := (hok value xs).1 hxs
    exact List.mem_filterMap

/-- The texts of a value that are admitted to a vocabulary are read text by text. -/
theorem readsEach_admitted (vocabulary : Vocabulary) :
    ReadsEach vocabulary.admitted (memberOf vocabulary) :=
  (readsEach_members vocabulary).mapError (Rejection.underVocabulary vocabulary)

end RowScope
