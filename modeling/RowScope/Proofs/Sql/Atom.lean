import RowScope.Sql.Predicate

/-!
# The atoms of a predicate

A predicate is built by connectives from atoms: comparisons of one column, and tests whether a
column is among the keys of a subquery. What a predicate reads is what its atoms read. The
simplifying constructors leave atoms out and never add one (`atoms_conj`, `atoms_disj`,
`atoms_negate`), so whatever holds of the atoms of the parts holds of those of the whole.
-/

namespace RowScope

mutual

/-- The comparisons and subquery tests of a predicate. Those inside a subquery are its own. -/
def Predicate.atoms : Predicate → List Predicate
  | .always | .never => []
  | .all parts | .any parts => atomsOf parts
  | .notTrue part => part.atoms
  | atom => [atom]

/-- The atoms of some predicates. -/
def atomsOf : List Predicate → List Predicate
  | [] => []
  | part :: parts => part.atoms ++ atomsOf parts

end

/-- The atoms of some predicates begin with those of the first one. -/
theorem atomsOf_cons (part : Predicate) (parts : List Predicate) :
    atomsOf (part :: parts) = part.atoms ++ atomsOf parts := rfl

/-- An atom of some predicates is an atom of one of them. -/
theorem mem_atomsOf {a : Predicate} {parts : List Predicate} :
    a ∈ atomsOf parts ↔ ∃ part ∈ parts, a ∈ part.atoms := by
  induction parts with
  | nil =>
    constructor
    · exact fun h => absurd h List.not_mem_nil
    · rintro ⟨part, hp, -⟩
      exact absurd hp List.not_mem_nil
  | cons part parts ih => simp [atomsOf_cons, ih]

/-- The atoms of two lists of predicates. -/
theorem atomsOf_append (parts others : List Predicate) :
    atomsOf (parts ++ others) = atomsOf parts ++ atomsOf others := by
  induction parts with
  | nil => rfl
  | cons part parts ih => rw [List.cons_append, atomsOf_cons, ih, atomsOf_cons, List.append_assoc]

namespace Predicate

/-- The column that an atom looks at. -/
def column? : Predicate → Option ColumnRef
  | equals column _ | oneOf column _ | compare column _ _ | between column _ _ | like column _
  | overlaps column _ | sameElements column _ | isNull column | inSet column _ => some column
  | always | never | all _ | any _ | notTrue _ => none

/-- The subquery of an atom. -/
def subquery? : Predicate → Option Subquery
  | inSet _ subquery => some subquery
  | _ => none

/-- The columns that a predicate looks at in the rows of its query. -/
def columns (p : Predicate) : List ColumnRef := p.atoms.filterMap column?

/-- The subqueries of a predicate. -/
def subqueries (p : Predicate) : List Subquery := p.atoms.filterMap subquery?

end Predicate

/-! ## Induction over connectives -/

section Induction

variable {motive : Predicate → Prop}

mutual

/-- What holds of the constants and of every atom, and passes from the parts of a connective to the
whole, holds of every predicate. -/
theorem Predicate.connective_induction (always : motive .always) (never : motive .never)
    (atom : ∀ a c, a.atoms = [a] → a.column? = some c → motive a)
    (all : ∀ parts, (∀ part ∈ parts, motive part) → motive (.all parts))
    (any : ∀ parts, (∀ part ∈ parts, motive part) → motive (.any parts))
    (notTrue : ∀ part, motive part → motive (.notTrue part)) : ∀ p, motive p
  | .always => always
  | .never => never
  | .equals _ _ | .oneOf _ _ | .compare _ _ _ | .between _ _ _ | .like _ _ | .overlaps _ _
  | .sameElements _ _ | .isNull _ | .inSet _ _ => atom _ _ rfl rfl
  | .all parts => all parts (connective_induction_parts always never atom all any notTrue parts)
  | .any parts => any parts (connective_induction_parts always never atom all any notTrue parts)
  | .notTrue part =>
    notTrue part (Predicate.connective_induction always never atom all any notTrue part)

/-- The same for all members of a list of predicates. -/
theorem connective_induction_parts (always : motive .always) (never : motive .never)
    (atom : ∀ a c, a.atoms = [a] → a.column? = some c → motive a)
    (all : ∀ parts, (∀ part ∈ parts, motive part) → motive (.all parts))
    (any : ∀ parts, (∀ part ∈ parts, motive part) → motive (.any parts))
    (notTrue : ∀ part, motive part → motive (.notTrue part)) :
    ∀ parts : List Predicate, ∀ part ∈ parts, motive part
  | [] => fun _ h => absurd h List.not_mem_nil
  | first :: rest => by
    have here := Predicate.connective_induction always never atom all any notTrue first
    have others := connective_induction_parts always never atom all any notTrue rest
    intro part h
    rcases List.mem_cons.1 h with rfl | h
    · exact here
    · exact others part h

end

end Induction

namespace Predicate

/-- An atom of a predicate is its own and only atom, and it looks at a column. -/
theorem atom_of_mem {p a : Predicate} (h : a ∈ p.atoms) :
    a.atoms = [a] ∧ ∃ c, a.column? = some c := by
  induction p using connective_induction with
  | always => exact absurd h List.not_mem_nil
  | never => exact absurd h List.not_mem_nil
  | atom b c hb hc =>
    rw [hb, List.mem_singleton] at h
    subst h
    exact ⟨hb, c, hc⟩
  | all parts ih =>
    obtain ⟨part, hp, ha⟩ := mem_atomsOf.1 h
    exact ih part hp ha
  | any parts ih =>
    obtain ⟨part, hp, ha⟩ := mem_atomsOf.1 h
    exact ih part hp ha
  | notTrue part ih => exact ih h

/-- A column that a predicate looks at is looked at by one of its atoms. -/
theorem mem_columns {p : Predicate} {c : ColumnRef} :
    c ∈ p.columns ↔ ∃ a ∈ p.atoms, a.column? = some c := List.mem_filterMap

/-- A subquery of a predicate is the subquery of one of its atoms. -/
theorem mem_subqueries {p : Predicate} {s : Subquery} :
    s ∈ p.subqueries ↔ ∃ a ∈ p.atoms, a.subquery? = some s := List.mem_filterMap

/-- An atom of a predicate without subqueries has none. -/
theorem subquery?_of_flat {p a : Predicate} (h : p.subqueries = []) (ha : a ∈ p.atoms) :
    a.subquery? = none := by
  rw [Option.eq_none_iff_forall_ne_some]
  intro s hs
  have hmem : s ∈ p.subqueries := mem_subqueries.2 ⟨a, ha, hs⟩
  rw [h] at hmem
  exact absurd hmem List.not_mem_nil

/-! ## The simplifying constructors -/

/-- What a predicate contributes to a conjunction: nothing, its parts, or itself. -/
def conjuncts : Predicate → List Predicate
  | always => []
  | all parts => parts
  | part => [part]

/-- What a predicate contributes to a disjunction: nothing, its parts, or itself. -/
def disjuncts : Predicate → List Predicate
  | never => []
  | any parts => parts
  | part => [part]

/-- A conjunction opens what its parts contribute. -/
theorem conjParts_eq_flatMap {parts flat : List Predicate} (h : conjParts parts = some flat) :
    flat = parts.flatMap conjuncts := by
  fun_induction conjParts parts generalizing flat with
  | case1 =>
    cases h
    rfl
  | case2 rest ih => exact ih h
  | case3 => cases h
  | case4 inner rest ih =>
    obtain ⟨others, ho, rfl⟩ := Option.map_eq_some_iff.1 h
    rw [List.flatMap_cons, ih ho]
    rfl
  | case5 part rest halways _ hall ih =>
    obtain ⟨others, ho, rfl⟩ := Option.map_eq_some_iff.1 h
    rw [List.flatMap_cons, ih ho, conjuncts.eq_3 part halways hall, List.singleton_append]

/-- A disjunction opens what its parts contribute. -/
theorem disjParts_eq_flatMap {parts flat : List Predicate} (h : disjParts parts = some flat) :
    flat = parts.flatMap disjuncts := by
  fun_induction disjParts parts generalizing flat with
  | case1 =>
    cases h
    rfl
  | case2 rest ih => exact ih h
  | case3 => cases h
  | case4 inner rest ih =>
    obtain ⟨others, ho, rfl⟩ := Option.map_eq_some_iff.1 h
    rw [List.flatMap_cons, ih ho]
    rfl
  | case5 part rest hnever _ hany ih =>
    obtain ⟨others, ho, rfl⟩ := Option.map_eq_some_iff.1 h
    rw [List.flatMap_cons, ih ho, disjuncts.eq_3 part hnever hany, List.singleton_append]

/-- Predicates that are replaced by others with the same atoms keep their atoms. -/
theorem atomsOf_flatMap {opened : Predicate → List Predicate}
    (h : ∀ part, atomsOf (opened part) = part.atoms) (parts : List Predicate) :
    atomsOf (parts.flatMap opened) = atomsOf parts := by
  induction parts with
  | nil => rfl
  | cons part parts ih => rw [List.flatMap_cons, atomsOf_append, h, ih, atomsOf_cons]

/-- The parts that a conjunction opens have the atoms of the parts that it is made of. -/
theorem atomsOf_conjParts {parts flat : List Predicate} (h : conjParts parts = some flat) :
    atomsOf flat = atomsOf parts := by
  rw [conjParts_eq_flatMap h]
  exact atomsOf_flatMap (fun part => by cases part <;> simp [conjuncts, atomsOf, atoms]) parts

/-- The parts that a disjunction opens have the atoms of the parts that it is made of. -/
theorem atomsOf_disjParts {parts flat : List Predicate} (h : disjParts parts = some flat) :
    atomsOf flat = atomsOf parts := by
  rw [disjParts_eq_flatMap h]
  exact atomsOf_flatMap (fun part => by cases part <;> simp [disjuncts, atomsOf, atoms]) parts

/-- An atom of a conjunction is an atom of one of its parts. -/
theorem atoms_conj {parts : List Predicate} {a : Predicate} (h : a ∈ (conj parts).atoms) :
    ∃ part ∈ parts, a ∈ part.atoms := by
  rw [← mem_atomsOf]
  unfold conj at h
  split at h
  · exact absurd h List.not_mem_nil
  · exact absurd h List.not_mem_nil
  · next part hp =>
    rw [← atomsOf_conjParts hp, atomsOf_cons]
    exact List.mem_append_left _ h
  · next flat _ _ hp =>
    rw [← atomsOf_conjParts hp]
    exact h

/-- An atom of a disjunction is an atom of one of its parts. -/
theorem atoms_disj {parts : List Predicate} {a : Predicate} (h : a ∈ (disj parts).atoms) :
    ∃ part ∈ parts, a ∈ part.atoms := by
  rw [← mem_atomsOf]
  unfold disj at h
  split at h
  · exact absurd h List.not_mem_nil
  · exact absurd h List.not_mem_nil
  · next part hp =>
    rw [← atomsOf_disjParts hp, atomsOf_cons]
    exact List.mem_append_left _ h
  · next flat _ _ hp =>
    rw [← atomsOf_disjParts hp]
    exact h

/-- A complement has the atoms of its part. -/
theorem atoms_negate (p : Predicate) : p.negate.atoms = p.atoms := by
  cases p <;> rfl

end Predicate

end RowScope
