import RowScope.Proofs.Sql.Atom
import RowScope.Proofs.Sql.Node

/-!
# Reduced predicates

A predicate is reduced (`Predicate.Reduced`) if nothing is left to simplify in it, the conditions of
its subqueries included: every connective joins at least two parts, none of which is a constant or a
connective of the same kind, every list of alternatives has at least two, no array is compared with
an empty list, and constants stand nowhere, but for a subquery that any row passes.

The simplifying constructors look at their parts only from above, so what they build is reduced
because the parts are (`Reduced.conj`, `Reduced.disj`, `Reduced.negate`): the parts of an opened
connective are reduced and of another kind, and one part at least is there to be kept.
-/

namespace RowScope

/-- A list that is neither empty nor of one member has two members or more. -/
theorem two_le_length {α : Type} {xs : List α} (hnil : xs ≠ []) (hone : ∀ x, xs ≠ [x]) :
    2 ≤ xs.length := by
  match xs with
  | [] => exact absurd rfl hnil
  | [x] => exact absurd rfl (hone x)
  | _ :: _ :: others => exact Nat.le_add_left 2 others.length

namespace Predicate

/-- Whether a predicate holds of all rows or of none by its form. -/
def isConstant : Predicate → Bool
  | always | never => true
  | equals _ _ | oneOf _ _ | compare _ _ _ | between _ _ _ | like _ _ | overlaps _ _
  | sameElements _ _ | isNull _ | all _ | any _ | notTrue _ | inSet _ _ => false

/-- Whether a predicate is a conjunction. -/
def isAll : Predicate → Bool
  | all _ => true
  | _ => false

/-- Whether a predicate is a disjunction. -/
def isAny : Predicate → Bool
  | any _ => true
  | _ => false

/-- Whether nothing is left to simplify in a predicate, its parts and subqueries aside. -/
def isReducedNode : Predicate → Bool
  | always | never => false
  | oneOf _ values => 2 ≤ values.length
  | overlaps _ values | sameElements _ values => !values.isEmpty
  | all parts => 2 ≤ parts.length && parts.all fun part => !part.isConstant && !part.isAll
  | any parts => 2 ≤ parts.length && parts.all fun part => !part.isConstant && !part.isAny
  | equals _ _ | compare _ _ _ | between _ _ _ | like _ _ | isNull _ | notTrue _ | inSet _ _ => true

/-- Nothing is left to simplify in any of the predicates that a predicate is built of. -/
abbrev Reduced (p : Predicate) : Prop := p.Everywhere isReducedNode

/-- A conjunction is decided by `never` exactly if that is one of its parts. -/
theorem conjParts_eq_none_iff {parts : List Predicate} :
    conjParts parts = none ↔ never ∈ parts := by
  fun_induction conjParts parts with
  | case1 => simp
  | case2 rest ih => simp [ih]
  | case3 => simp
  | case4 inner rest ih => simp [ih]
  | case5 part rest _ hnever _ ih => simp [ih, Ne.symm hnever]

/-- A conjunction with a part that no row meets is met by no row, by its form. -/
theorem conj_eq_never {parts : List Predicate} (h : never ∈ parts) : conj parts = never := by
  rw [conj, conjParts_eq_none_iff.2 h]

/-- A disjunction is decided by `always` exactly if that is one of its parts. -/
theorem disjParts_eq_none_iff {parts : List Predicate} :
    disjParts parts = none ↔ always ∈ parts := by
  fun_induction disjParts parts with
  | case1 => simp
  | case2 rest ih => simp [ih]
  | case3 => simp
  | case4 inner rest ih => simp [ih]
  | case5 part rest _ halways _ ih => simp [ih, Ne.symm halways]

namespace Reduced

variable {p q : Predicate} {parts : List Predicate} {column : ColumnRef} {s : Subquery}

/-- A leaf is reduced if it is so by itself. -/
theorem leaf (hleaf : p.isLeaf = true) (h : p.isReducedNode = true) : p.Reduced :=
  (everywhere_leaf hleaf).2 h

/-- A reduced predicate is no constant. -/
theorem isConstant_eq_false (h : p.Reduced) : p.isConstant = false := by
  have hself := h.self
  cases p <;> first | rfl | cases hself

/-- A reduced predicate is not `always`. -/
theorem ne_always (h : p.Reduced) : p ≠ always := by
  rintro rfl
  cases h.isConstant_eq_false

/-- A reduced predicate is not `never`. -/
theorem ne_never (h : p.Reduced) : p ≠ never := by
  rintro rfl
  cases h.isConstant_eq_false

/-- What a connective asks of its parts follows from what is asked of each of them, but for their
number and kind. -/
theorem connective_iff {kind : Predicate → Bool} :
    ((2 ≤ parts.length && parts.all fun part => !part.isConstant && !kind part) = true ∧
        ∀ part ∈ parts, part.Reduced) ↔
      2 ≤ parts.length ∧ ∀ part ∈ parts, part.Reduced ∧ kind part = false := by
  simp only [Bool.and_eq_true, decide_eq_true_eq, List.all_eq_true, Bool.not_eq_true']
  constructor
  · rintro ⟨⟨hlength, hkinds⟩, hparts⟩
    exact ⟨hlength, fun part hpart => ⟨hparts part hpart, (hkinds part hpart).2⟩⟩
  · rintro ⟨hlength, hparts⟩
    refine ⟨⟨hlength, fun part hpart => ?_⟩, fun part hpart => (hparts part hpart).1⟩
    exact ⟨isConstant_eq_false (hparts part hpart).1, (hparts part hpart).2⟩

/-- A conjunction is reduced if it has two reduced parts or more that are no conjunctions. -/
theorem all_iff : (all parts).Reduced ↔
    2 ≤ parts.length ∧ ∀ part ∈ parts, part.Reduced ∧ part.isAll = false :=
  everywhere_all.trans connective_iff

/-- A disjunction is reduced if it has two reduced parts or more that are no disjunctions. -/
theorem any_iff : (any parts).Reduced ↔
    2 ≤ parts.length ∧ ∀ part ∈ parts, part.Reduced ∧ part.isAny = false :=
  everywhere_any.trans connective_iff

/-- A complement is reduced if its part is. -/
theorem notTrue (h : p.Reduced) : (Predicate.notTrue p).Reduced := everywhere_notTrue.2 ⟨rfl, h⟩

/-- A test for keys is reduced if the conditions of its subquery are, as far as there are any. -/
theorem inSet (hfilter : s.filter = .always ∨ s.filter.Reduced)
    (hhaving : ∀ q, s.having = .noneMatch q → q.Reduced) : (Predicate.inSet column s).Reduced :=
  everywhere_inSet.2 ⟨rfl, hfilter, hhaving⟩

/-! ## The simplifying constructors -/

/-- What a reduced predicate contributes to a conjunction is reduced and no conjunction, and it
contributes something. -/
theorem conjuncts (h : p.Reduced) :
    p.conjuncts ≠ [] ∧ ∀ q ∈ p.conjuncts, q.Reduced ∧ q.isAll = false := by
  cases p with
  | always => exact absurd rfl h.ne_always
  | all parts =>
    obtain ⟨hlength, hparts⟩ := all_iff.1 h
    exact ⟨List.ne_nil_of_length_pos (Nat.zero_lt_of_lt hlength), hparts⟩
  | never | equals _ _ | oneOf _ _ | compare _ _ _ | between _ _ _ | like _ _ | overlaps _ _
  | sameElements _ _ | isNull _ | any _ | notTrue _ | inSet _ _ =>
    exact ⟨List.cons_ne_nil _ _, List.forall_mem_singleton.2 ⟨h, rfl⟩⟩

/-- What a reduced predicate contributes to a disjunction is reduced and no disjunction, and it
contributes something. -/
theorem disjuncts (h : p.Reduced) :
    p.disjuncts ≠ [] ∧ ∀ q ∈ p.disjuncts, q.Reduced ∧ q.isAny = false := by
  cases p with
  | never => exact absurd rfl h.ne_never
  | any parts =>
    obtain ⟨hlength, hparts⟩ := any_iff.1 h
    exact ⟨List.ne_nil_of_length_pos (Nat.zero_lt_of_lt hlength), hparts⟩
  | always | equals _ _ | oneOf _ _ | compare _ _ _ | between _ _ _ | like _ _ | overlaps _ _
  | sameElements _ _ | isNull _ | all _ | notTrue _ | inSet _ _ =>
    exact ⟨List.cons_ne_nil _ _, List.forall_mem_singleton.2 ⟨h, rfl⟩⟩

/-- Parts that each contribute something contribute something together, and what they contribute has
the properties of what each of them does. -/
theorem flatMap {opened : Predicate → List Predicate} {kind : Predicate → Bool} (hsome : parts ≠ [])
    (h : ∀ part ∈ parts, opened part ≠ [] ∧ ∀ q ∈ opened part, q.Reduced ∧ kind q = false) :
    parts.flatMap opened ≠ [] ∧ ∀ q ∈ parts.flatMap opened, q.Reduced ∧ kind q = false := by
  constructor
  · obtain ⟨part, hpart⟩ := List.exists_mem_of_ne_nil parts hsome
    exact fun hnil => (h part hpart).1 (List.flatMap_eq_nil_iff.1 hnil part hpart)
  · intro q hq
    obtain ⟨part, hpart, hq⟩ := List.mem_flatMap.1 hq
    exact (h part hpart).2 q hq

/-- A conjunction of reduced predicates is reduced. -/
theorem conj (hsome : parts ≠ []) (h : ∀ part ∈ parts, part.Reduced) :
    (Predicate.conj parts).Reduced := by
  obtain ⟨hflat, hkinds⟩ := flatMap hsome fun part hpart => (h part hpart).conjuncts
  unfold Predicate.conj
  split
  · next hnone => exact absurd rfl (h _ (conjParts_eq_none_iff.1 hnone)).ne_never
  · next hnil => exact absurd (conjParts_eq_flatMap hnil).symm hflat
  · next part hone =>
    rw [← conjParts_eq_flatMap hone] at hkinds
    exact (hkinds part (List.mem_singleton_self part)).1
  · next flat hnil hone hsome =>
    rw [← conjParts_eq_flatMap hsome] at hkinds
    exact all_iff.2 ⟨two_le_length hnil hone, hkinds⟩

example : (Predicate.conj [.always, .all [.isNull ⟨"a", "b"⟩, .isNull ⟨"a", "c"⟩],
    .any [.isNull ⟨"a", "d"⟩, .isNull ⟨"a", "e"⟩]]).Reduced := by
  decide

/-- A disjunction of reduced predicates is reduced. -/
theorem disj (hsome : parts ≠ []) (h : ∀ part ∈ parts, part.Reduced) :
    (Predicate.disj parts).Reduced := by
  obtain ⟨hflat, hkinds⟩ := flatMap hsome fun part hpart => (h part hpart).disjuncts
  unfold Predicate.disj
  split
  · next hnone => exact absurd rfl (h _ (disjParts_eq_none_iff.1 hnone)).ne_always
  · next hnil => exact absurd (disjParts_eq_flatMap hnil).symm hflat
  · next part hone =>
    rw [← disjParts_eq_flatMap hone] at hkinds
    exact (hkinds part (List.mem_singleton_self part)).1
  · next flat hnil hone hsome =>
    rw [← disjParts_eq_flatMap hsome] at hkinds
    exact any_iff.2 ⟨two_le_length hnil hone, hkinds⟩

/-- The conjunction of two reduced predicates is reduced. -/
theorem conj_pair (hp : p.Reduced) (hq : q.Reduced) : (Predicate.conj [p, q]).Reduced :=
  conj (List.cons_ne_nil p [q]) (List.forall_mem_cons.2 ⟨hp, List.forall_mem_singleton.2 hq⟩)

/-- The disjunction of two reduced predicates is reduced. -/
theorem disj_pair (hp : p.Reduced) (hq : q.Reduced) : (Predicate.disj [p, q]).Reduced :=
  disj (List.cons_ne_nil p [q]) (List.forall_mem_cons.2 ⟨hp, List.forall_mem_singleton.2 hq⟩)

/-- The complement of a reduced predicate is reduced. -/
theorem negate (h : p.Reduced) : p.negate.Reduced := by
  unfold Predicate.negate
  split
  · exact absurd rfl h.ne_always
  · exact absurd rfl h.ne_never
  · exact h.notTrue

end Reduced

end Predicate

end RowScope
