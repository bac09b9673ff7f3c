import RowScope.Association
import RowScope.Proofs.Memory.Subquery

/-!
# Conditions on the row at the end of a path

A condition on the row at the end of a path names the terminal alias only, has no subquery, and is
not met where a step of the path found nothing (`Reads`). Comparisons of terminal columns are such
conditions (`reads_comparison`), and so are the disjunctions and the conjunctions of some
(`reads_disj`, `reads_conj`). The test for a missing value is one only where the path has no steps
(`reads_isNull`), for a row that was not found lacks every value.
-/

namespace RowScope

/-- A path and a condition on the row at its end. -/
structure Reads (target : RelationPath × Predicate) : Prop where
  /-- The condition names the terminal alias only. -/
  columns : ∀ c ∈ target.2.columns, c.aliasName = target.1.terminalAlias
  /-- The condition has no subquery. -/
  flat : target.2.subqueries = []
  /-- Where a step finds nothing, the condition is not met. -/
  strict : target.1.hops ≠ [] → ∀ db, ¬ Database.Meets db [(target.1.terminalAlias, none)] target.2

/-- The column of a comparison with some values. -/
def Predicate.comparison? : Predicate → Option ColumnRef
  | equals c _ | oneOf c _ | compare c _ _ | between c _ _ | like c _ | overlaps c _
  | sameElements c _ => some c
  | always | never | isNull _ | all _ | any _ | notTrue _ | inSet _ _ => none

variable {p : RelationPath} {parts : List Predicate}

/-- A comparison of a missing value does not hold. -/
theorem not_meets_comparison {db : Database} {row : JoinedRow} {a : Predicate} {c : ColumnRef}
    (hc : a.comparison? = some c) (hnull : row.value c = .ok .null) : ¬ db.Meets row a := by
  have unknown : ∀ (op : CompareOp) (v : Value), op.truth .null v = none := by
    intro op v
    cases v <;> rfl
  unfold Database.Meets
  cases a <;> cases hc <;> show ¬(row.value c >>= _) = _ <;> rw [hnull] <;>
    simp [bind, Except.bind, pure, Except.pure, unknown, Database.likeTruth,
      Database.overlapTruth, Database.sameElementsTruth, Truth.any_eq_true, Truth.all_eq_true]

/-- A comparison of a terminal column is a condition on the terminal row. -/
theorem reads_comparison {a : Predicate} {column : String}
    (h : a.comparison? = some (p.terminalColumn column)) : Reads (p, a) where
  columns c hc := by
    have hcols : a.columns = [p.terminalColumn column] := by
      cases a <;> cases h <;> rfl
    rw [hcols, List.mem_singleton] at hc
    rw [hc]
    rfl
  flat := by cases a <;> cases h <;> rfl
  strict _ db := by
    apply not_meets_comparison h
    rw [JoinedRow.value, RelationPath.terminalColumn, List.lookup_cons_self]

/-- On a path without steps there is always a terminal row. -/
theorem reads_isNull {column : String} (h : p.hops = []) :
    Reads (p, .isNull (p.terminalColumn column)) where
  columns c hc := by
    rw [List.mem_singleton.1 hc]
    rfl
  flat := rfl
  strict hne := absurd h hne

/-- A condition on the terminal row evaluates where the terminal alias is bound. -/
theorem Reads.evaluates {v : Predicate} (h : Reads (p, v)) (db : Database) (part : Option Row) :
    db.Evaluates [(p.terminalAlias, part)] v := by
  refine Database.evaluates_of_columns (fun c hc => ?_) ?_
  · rw [h.columns c hc]
    exact List.mem_singleton_self p.terminalAlias
  · rw [show v.subqueries = [] from h.flat]
    exact fun s hs => absurd hs List.not_mem_nil

/-- What a predicate has only atoms of, if each stands in a condition on the terminal row, names the
terminal alias only and has no subquery. -/
theorem reads_of_atoms {v : Predicate}
    (h : ∀ a ∈ v.atoms, ∃ part : Predicate, a ∈ part.atoms ∧ Reads (p, part))
    (strict : p.hops ≠ [] → ∀ db, ¬ Database.Meets db [(p.terminalAlias, none)] v) :
    Reads (p, v) where
  columns c hc := by
    obtain ⟨a, ha, hcol⟩ := Predicate.mem_columns.1 hc
    obtain ⟨part, hpart, hreads⟩ := h a ha
    exact hreads.columns c (Predicate.mem_columns.2 ⟨a, hpart, hcol⟩)
  flat := by
    rw [List.eq_nil_iff_forall_not_mem]
    intro s hs
    obtain ⟨a, ha, hsub⟩ := Predicate.mem_subqueries.1 hs
    obtain ⟨part, hpart, hreads⟩ := h a ha
    have hmem : s ∈ part.subqueries := Predicate.mem_subqueries.2 ⟨a, hpart, hsub⟩
    rw [show part.subqueries = [] from hreads.flat] at hmem
    exact absurd hmem List.not_mem_nil
  strict := strict

/-- A disjunction of conditions on the terminal row is one. -/
theorem reads_disj (h : ∀ part ∈ parts, Reads (p, part)) : Reads (p, .disj parts) := by
  refine reads_of_atoms (fun a ha => ?_) fun hne db hmeets => ?_
  · obtain ⟨part, hpart, hatom⟩ := Predicate.atoms_disj ha
    exact ⟨part, hatom, h part hpart⟩
  · rw [Database.meets_disj fun part hpart => (h part hpart).evaluates db none] at hmeets
    obtain ⟨part, hpart, hm⟩ := hmeets
    exact (h part hpart).strict hne db hm

/-- A conjunction of one or more conditions on the terminal row is one. -/
theorem reads_conj (hsome : parts ≠ []) (h : ∀ part ∈ parts, Reads (p, part)) :
    Reads (p, .conj parts) := by
  refine reads_of_atoms (fun a ha => ?_) fun hne db hmeets => ?_
  · obtain ⟨part, hpart, hatom⟩ := Predicate.atoms_conj ha
    exact ⟨part, hatom, h part hpart⟩
  · rw [Database.meets_conj fun part hpart => (h part hpart).evaluates db none] at hmeets
    obtain ⟨part, hpart⟩ := List.exists_mem_of_ne_nil parts hsome
    exact (h part hpart).strict hne db (hmeets part hpart)

end RowScope
