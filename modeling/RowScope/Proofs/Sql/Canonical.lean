import RowScope.Proofs.Association.Inspects

/-!
# Canonical predicates

A predicate is canonical (`Predicate.Canonical`) if no other form of predicate is written as one of
its parts is: its comparisons are plain, and its conjunctions and disjunctions have at least two
parts, since one part in parentheses could be the beginning of a complement. The simplifying
constructors keep predicates canonical, and so do the conditions that rules build from them.
-/

namespace RowScope

namespace Predicate

/-- A predicate that is built from plain comparisons, with two parts or more in every connective. -/
inductive Canonical : Predicate → Prop
  | always : Canonical .always
  | never : Canonical .never
  | comparison {a : Predicate} {column : ColumnRef} : a.comparison? = some column →
    a.isPlain = true → Canonical a
  | isNull {column : ColumnRef} : Canonical (.isNull column)
  | all {first second : Predicate} {others : List Predicate} :
    (∀ part ∈ first :: second :: others, Canonical part) →
    Canonical (.all (first :: second :: others))
  | any {first second : Predicate} {others : List Predicate} :
    (∀ part ∈ first :: second :: others, Canonical part) →
    Canonical (.any (first :: second :: others))
  | notTrue {part : Predicate} : Canonical part → Canonical (.notTrue part)
  | inSet {column : ColumnRef} {s : Subquery} : Canonical s.filter →
    (∀ p, s.having = .noneMatch p → Canonical p) → Canonical (.inSet column s)

namespace Canonical

variable {parts flat : List Predicate} {p : Predicate}

/-- The parts of a canonical conjunction are canonical. -/
theorem of_all (h : Canonical (.all parts)) : ∀ part ∈ parts, Canonical part := by
  cases h with
  | comparison hcol _ => cases hcol
  | all hparts => exact hparts

/-- The parts of a canonical disjunction are canonical. -/
theorem of_any (h : Canonical (.any parts)) : ∀ part ∈ parts, Canonical part := by
  cases h with
  | comparison hcol _ => cases hcol
  | any hparts => exact hparts

/-- The parts that a conjunction opens are canonical. -/
theorem conjParts (hparts : ∀ part ∈ parts, Canonical part)
    (h : Predicate.conjParts parts = some flat) : ∀ part ∈ flat, Canonical part := by
  rw [conjParts_eq_flatMap h]
  intro p hp
  obtain ⟨part, hpart, hp⟩ := List.mem_flatMap.1 hp
  have hcanonical := hparts part hpart
  unfold conjuncts at hp
  split at hp
  · exact absurd hp List.not_mem_nil
  · exact hcanonical.of_all p hp
  · exact List.mem_singleton.1 hp ▸ hcanonical

/-- The parts that a disjunction opens are canonical. -/
theorem disjParts (hparts : ∀ part ∈ parts, Canonical part)
    (h : Predicate.disjParts parts = some flat) : ∀ part ∈ flat, Canonical part := by
  rw [disjParts_eq_flatMap h]
  intro p hp
  obtain ⟨part, hpart, hp⟩ := List.mem_flatMap.1 hp
  have hcanonical := hparts part hpart
  unfold disjuncts at hp
  split at hp
  · exact absurd hp List.not_mem_nil
  · exact hcanonical.of_any p hp
  · exact List.mem_singleton.1 hp ▸ hcanonical

/-- A list that is neither empty nor of one member has two members and others. -/
theorem exists_cons_cons (hnil : flat ≠ []) (hone : ∀ part, flat ≠ [part]) :
    ∃ first second others, flat = first :: second :: others := by
  match flat with
  | [] => exact absurd rfl hnil
  | [part] => exact absurd rfl (hone part)
  | first :: second :: others => exact ⟨first, second, others, rfl⟩

/-- A conjunction of canonical predicates is canonical. -/
theorem conj (h : ∀ part ∈ parts, Canonical part) : Canonical (.conj parts) := by
  unfold Predicate.conj
  split
  · exact .never
  · exact .always
  · next part hp => exact conjParts h hp part (List.mem_singleton_self part)
  · next flat hnil hone hp =>
    obtain ⟨first, second, others, rfl⟩ := exists_cons_cons hnil hone
    exact .all (conjParts h hp)

/-- A disjunction of canonical predicates is canonical. -/
theorem disj (h : ∀ part ∈ parts, Canonical part) : Canonical (.disj parts) := by
  unfold Predicate.disj
  split
  · exact .always
  · exact .never
  · next part hp => exact disjParts h hp part (List.mem_singleton_self part)
  · next flat hnil hone hp =>
    obtain ⟨first, second, others, rfl⟩ := exists_cons_cons hnil hone
    exact .any (disjParts h hp)

/-- The complement of a canonical predicate is canonical. -/
theorem negate (h : Canonical p) : Canonical p.negate := by
  unfold Predicate.negate
  split
  · exact .never
  · exact .always
  · exact .notTrue h

end Canonical

end Predicate

/-- A condition built from plain comparisons of terminal columns is canonical. -/
theorem Inspects.canonical {p : RelationPath} {read : String → Prop} {v : Predicate}
    (h : Inspects p read v) : v.Canonical := by
  induction h with
  | comparison hcol hplain _ => exact .comparison hcol hplain
  | isNull _ _ => exact .isNull
  | disj _ ih => exact .disj ih
  | conj _ _ ih => exact .conj ih

end RowScope
