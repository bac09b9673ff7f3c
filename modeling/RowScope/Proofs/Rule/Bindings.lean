import RowScope.Proofs.Rule.Reduced
import RowScope.Proofs.Sql.Placeholder

/-!
# What conditions bind

A condition on rows binds texts, by themselves or in arrays, and tests columns for NULL
(`Predicate.Binds`). Both can be read off its leaves. A condition on related rows has the leaves of
the conditions that it asks at the ends of its paths, whatever subquery or complement stands around
them (`leaves_existsAlongAny`): the conditions are reduced, so that no leaf is dropped where they
are simplified. So if they bind some texts, it binds these texts and no others
(`existsAlongAny_binds`).
-/

namespace RowScope

/-- The texts of a value. -/
def Value.texts : Value → List String
  | text s => [s]
  | textArray items => items
  | null | bool _ | int _ | date _ => []

/-- The texts that a leaf binds. -/
def SqlLeaf.texts (leaf : SqlLeaf) : List String := leaf.values.flatMap Value.texts

namespace Predicate

/-- The texts among the values of the placeholders. -/
def boundTexts (p : Predicate) : List String := p.params.flatMap Value.texts

/-- The predicate tests a column for NULL. -/
def TestsNull (p : Predicate) (column : ColumnRef) : Prop := .test (.isNull column) ∈ p.leaves

/-- What a predicate binds and tests for NULL. -/
structure Binds (p : Predicate) (listed : String → Prop) (missing : ColumnRef → Prop) : Prop where
  /-- The texts that are bound. -/
  texts : ∀ text, text ∈ p.boundTexts ↔ listed text
  /-- The columns that are tested for NULL. -/
  nulls : ∀ column, p.TestsNull column ↔ missing column

variable {p : Predicate} {parts : List Predicate} {opened : Predicate → List Predicate}
  {listed : String → Prop} {missing : ColumnRef → Prop}

/-- What a predicate binds may be said in another way. -/
theorem Binds.congr (h : p.Binds listed missing) {others : String → Prop}
    {lacking : ColumnRef → Prop} (htexts : ∀ text, listed text ↔ others text)
    (hnulls : ∀ column, missing column ↔ lacking column) : p.Binds others lacking where
  texts text := (h.texts text).trans (htexts text)
  nulls column := (h.nulls column).trans (hnulls column)

/-- The bound texts are those of the leaves. -/
theorem mem_boundTexts {text : String} :
    text ∈ p.boundTexts ↔ ∃ leaf ∈ p.leaves, text ∈ leaf.texts := by
  rw [boundTexts, params, p.interleaves.params_eq, List.flatMap_assoc]
  exact List.mem_flatMap

/-! ## Leaves of connectives -/

/-- The leaves of some predicates are those of each of them. -/
theorem leavesOf_eq_flatMap (parts : List Predicate) : leavesOf parts = parts.flatMap leaves := by
  induction parts with
  | nil => rfl
  | cons part parts ih => rw [leavesOf, ih, List.flatMap_cons]

/-- Predicates that are opened without loss keep their leaves. -/
theorem leavesOf_flatMap (h : ∀ part ∈ parts, leavesOf (opened part) = part.leaves) :
    leavesOf (parts.flatMap opened) = leavesOf parts := by
  simp only [leavesOf_eq_flatMap, List.flatMap_assoc] at h ⊢
  exact List.flatMap_congr h

/-- A reduced predicate is opened for a conjunction without loss. -/
theorem leavesOf_conjuncts (h : p.Reduced) : leavesOf p.conjuncts = p.leaves := by
  unfold conjuncts
  split
  · exact absurd rfl h.ne_always
  · rfl
  · exact List.append_nil _

/-- A reduced predicate is opened for a disjunction without loss. -/
theorem leavesOf_disjuncts (h : p.Reduced) : leavesOf p.disjuncts = p.leaves := by
  unfold disjuncts
  split
  · exact absurd rfl h.ne_never
  · rfl
  · exact List.append_nil _

/-- A conjunction of reduced predicates has their leaves. -/
theorem leaves_conj (hsome : parts ≠ []) (h : ∀ part ∈ parts, part.Reduced) :
    (conj parts).leaves = leavesOf parts := by
  have hopen : leavesOf (parts.flatMap conjuncts) = leavesOf parts :=
    leavesOf_flatMap fun part hpart => leavesOf_conjuncts (h part hpart)
  unfold conj
  split
  · next hnone => exact absurd rfl (h _ (conjParts_eq_none_iff.1 hnone)).ne_never
  · next hnil =>
    have hflat := (Reduced.flatMap hsome fun part hpart => (h part hpart).conjuncts).1
    exact absurd (conjParts_eq_flatMap hnil).symm hflat
  · next part hone =>
    rw [← hopen, ← conjParts_eq_flatMap hone]
    exact (List.append_nil _).symm
  · next flat _ _ hflat =>
    rw [← hopen, ← conjParts_eq_flatMap hflat]
    rfl

/-- A disjunction of reduced predicates has their leaves. -/
theorem leaves_disj (hsome : parts ≠ []) (h : ∀ part ∈ parts, part.Reduced) :
    (disj parts).leaves = leavesOf parts := by
  have hopen : leavesOf (parts.flatMap disjuncts) = leavesOf parts :=
    leavesOf_flatMap fun part hpart => leavesOf_disjuncts (h part hpart)
  unfold disj
  split
  · next hnone => exact absurd rfl (h _ (disjParts_eq_none_iff.1 hnone)).ne_always
  · next hnil =>
    have hflat := (Reduced.flatMap hsome fun part hpart => (h part hpart).disjuncts).1
    exact absurd (disjParts_eq_flatMap hnil).symm hflat
  · next part hone =>
    rw [← hopen, ← disjParts_eq_flatMap hone]
    exact (List.append_nil _).symm
  · next flat _ _ hflat =>
    rw [← hopen, ← disjParts_eq_flatMap hflat]
    rfl

/-- The complement of a reduced predicate has its leaves. -/
theorem leaves_negate (h : p.Reduced) : p.negate.leaves = p.leaves := by
  unfold negate
  split
  · exact absurd rfl h.ne_always
  · exact absurd rfl h.ne_never
  · rfl

/-- A disjunction of two reduced predicates binds what either of them does. -/
theorem Binds.disj_pair {q : Predicate} {others : String → Prop} {lacking : ColumnRef → Prop}
    (hp : p.Reduced) (hq : q.Reduced) (h : p.Binds listed missing) (h' : q.Binds others lacking) :
    (disj [p, q]).Binds (fun text => listed text ∨ others text)
      (fun column => missing column ∨ lacking column) := by
  have hleaves : (disj [p, q]).leaves = p.leaves ++ q.leaves := by
    rw [leaves_disj (List.cons_ne_nil p [q])
      (List.forall_mem_cons.2 ⟨hp, List.forall_mem_singleton.2 hq⟩), leavesOf_eq_flatMap]
    simp
  constructor
  · intro text
    rw [← h.texts, ← h'.texts, mem_boundTexts, mem_boundTexts, mem_boundTexts, hleaves]
    simp only [List.mem_append, or_and_right, exists_or]
  · intro column
    rw [← h.nulls, ← h'.nulls, TestsNull, hleaves, List.mem_append]
    rfl

end Predicate

/-! ## Related rows -/

/-- A reduced condition at the end of a path has the same leaves as a condition on root rows. -/
theorem RelationPath.leaves_existsAlong (p : RelationPath) {v : Predicate} (h : v.Reduced)
    (mode : Mode) : (p.existsAlong v mode).predicate.leaves = v.leaves := by
  unfold existsAlong
  split
  · cases mode with
    | including =>
      have hwritten : v.isAlways = false := by
        rw [Bool.eq_false_iff, ne_eq, Predicate.isAlways_iff]
        exact h.ne_always
      show (if v.isAlways then [] else v.leaves) ++ [] = v.leaves
      rw [hwritten, List.append_nil]
      rfl
    | excluding => rfl
  · cases mode with
    | including => rfl
    | excluding => exact Predicate.leaves_negate h

/-- The leaves of a condition on related rows are those of the conditions at the ends of its
paths. -/
theorem leaves_existsAlongAny {targets : List (RelationPath × Predicate)} (hsome : targets ≠ [])
    (h : ∀ t ∈ targets, t.2.Reduced) (mode : Mode) :
    (existsAlongAny targets mode).predicate.leaves = targets.flatMap fun t => t.2.leaves := by
  have hparts : ∀ part ∈ targets.map fun t => (t.1.existsAlong t.2 mode).predicate, part.Reduced :=
    List.forall_mem_map.2 fun t ht => t.1.reduced_existsAlong (h t ht) mode
  have hnonempty : (targets.map fun t => (t.1.existsAlong t.2 mode).predicate) ≠ [] :=
    mt List.map_eq_nil_iff.1 hsome
  have hcombine : (existsAlongAny targets mode).predicate.leaves =
      leavesOf (targets.map fun t => (t.1.existsAlong t.2 mode).predicate) := by
    rw [predicate_existsAlongAny]
    cases mode with
    | including => exact Predicate.leaves_disj hnonempty hparts
    | excluding => exact Predicate.leaves_conj hnonempty hparts
  rw [hcombine, Predicate.leavesOf_eq_flatMap, List.flatMap_map]
  exact List.flatMap_congr fun t ht => t.1.leaves_existsAlong (h t ht) mode

/-- A condition on related rows binds what the conditions at the ends of its paths bind. -/
theorem existsAlongAny_binds {targets : List (RelationPath × Predicate)} (hsome : targets ≠ [])
    (hreduced : ∀ t ∈ targets, t.2.Reduced) {listed : String → Prop} {missing : ColumnRef → Prop}
    (h : ∀ t ∈ targets, t.2.Binds listed missing) (mode : Mode) :
    (existsAlongAny targets mode).predicate.Binds listed missing := by
  obtain ⟨one, hone⟩ := List.exists_mem_of_ne_nil targets hsome
  have hleaves : ∀ leaf, leaf ∈ (existsAlongAny targets mode).predicate.leaves ↔
      ∃ t ∈ targets, leaf ∈ t.2.leaves := by
    intro leaf
    rw [leaves_existsAlongAny hsome hreduced]
    exact List.mem_flatMap
  constructor
  · intro text
    rw [Predicate.mem_boundTexts]
    constructor
    · rintro ⟨leaf, hleaf, htext⟩
      obtain ⟨t, ht, hleaf⟩ := (hleaves leaf).1 hleaf
      exact ((h t ht).texts text).1 (Predicate.mem_boundTexts.2 ⟨leaf, hleaf, htext⟩)
    · intro hlisted
      have hbound : text ∈ one.2.boundTexts := ((h one hone).texts text).2 hlisted
      obtain ⟨leaf, hleaf, htext⟩ := Predicate.mem_boundTexts.1 hbound
      exact ⟨leaf, (hleaves leaf).2 ⟨one, hone, hleaf⟩, htext⟩
  · intro column
    rw [Predicate.TestsNull, hleaves]
    constructor
    · rintro ⟨t, ht, hleaf⟩
      exact ((h t ht).nulls column).1 hleaf
    · intro hmissing
      exact ⟨one, hone, ((h one hone).nulls column).2 hmissing⟩

/-! ## Comparisons with texts -/

/-- A leaf other than a test for NULL binds its texts. -/
theorem Predicate.binds_leaf {a : Predicate} {texts : List String} (hleaves : a.leaves = [.test a])
    (htexts : (SqlLeaf.test a).texts = texts) (hnull : ∀ column, a ≠ .isNull column) :
    a.Binds (· ∈ texts) (fun _ => False) := by
  constructor
  · intro text
    rw [mem_boundTexts, hleaves, ← htexts]
    simp
  · intro column
    rw [TestsNull, hleaves, List.mem_singleton, SqlLeaf.test.injEq, iff_false]
    exact fun h => hnull column h.symm

/-- A test for NULL binds no text. -/
theorem Predicate.binds_isNull (column : ColumnRef) :
    (Predicate.isNull column).Binds (fun _ => False) (· = column) := by
  constructor
  · intro text
    rw [mem_boundTexts]
    simp [leaves, SqlLeaf.texts, SqlLeaf.values]
  · intro other
    simp [TestsNull, leaves]

/-- The comparison of a column with some texts binds them. -/
theorem ColumnRef.binds_amongTexts (column : ColumnRef) (texts : List String) :
    (column.amongTexts texts).Binds (· ∈ texts) (fun _ => False) := by
  have htexts : (texts.map Value.text).flatMap Value.texts = texts := by
    rw [List.flatMap_map]
    exact List.flatMap_singleton' texts
  unfold amongTexts among
  split
  · next value hone =>
    rw [hone] at htexts
    exact Predicate.binds_leaf rfl htexts nofun
  · exact Predicate.binds_leaf rfl htexts nofun

/-- A field that has one of some texts binds them. -/
theorem Field.binds_hasText (f : Field) (paths : ReadPaths) (texts : List String) :
    (f.hasText paths texts).2.Binds (· ∈ texts) (fun _ => False) := by
  unfold hasText target
  cases f.shape with
  | single => exact ColumnRef.binds_amongTexts _ texts
  | array => exact Predicate.binds_leaf rfl (List.append_nil texts) nofun

end RowScope
