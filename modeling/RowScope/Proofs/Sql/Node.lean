import RowScope.Sql.Predicate

/-!
# The nodes of a predicate

The nodes of a predicate are the predicates that it is built of, those inside of its subqueries
included. What is asked of every node (`Predicate.Everywhere`) is asked of the predicate itself and
of the nodes of its parts, one statement for each form of predicate. Facts about whole predicates
are proved by induction over the nodes (`Predicate.nested_induction`).
-/

namespace RowScope

namespace Predicate

/-- Whether no other predicate stands inside a predicate. -/
def isLeaf : Predicate → Bool
  | always | never | equals _ _ | oneOf _ _ | compare _ _ _ | between _ _ _ | like _ _
  | overlaps _ _ | sameElements _ _ | isNull _ => true
  | all _ | any _ | notTrue _ | inSet _ _ => false

end Predicate

/-! ## Induction through subqueries -/

section Induction

variable {motive : Predicate → Prop}

/-- What holds of every leaf, and passes from the parts of a connective and from the conditions of a
subquery to the whole, holds of every predicate. -/
theorem Predicate.nested_induction (leaf : ∀ a, a.isLeaf = true → motive a)
    (all : ∀ parts, (∀ part ∈ parts, motive part) → motive (.all parts))
    (any : ∀ parts, (∀ part ∈ parts, motive part) → motive (.any parts))
    (notTrue : ∀ part, motive part → motive (.notTrue part))
    (inSet : ∀ column s, motive s.filter → (∀ p, s.having = .noneMatch p → motive p) →
      motive (.inSet column s)) (p : Predicate) : motive p := by
  refine @Predicate.rec motive
    (fun s => motive s.filter ∧ ∀ p, s.having = .noneMatch p → motive p)
    (fun having => ∀ p, having = .noneMatch p → motive p)
    (fun parts => ∀ part ∈ parts, motive part)
    (leaf _ rfl) (leaf _ rfl) (fun _ _ => leaf _ rfl) (fun _ _ => leaf _ rfl)
    (fun _ _ _ => leaf _ rfl) (fun _ _ _ => leaf _ rfl) (fun _ _ => leaf _ rfl)
    (fun _ _ => leaf _ rfl) (fun _ _ => leaf _ rfl) (fun _ => leaf _ rfl)
    all any notTrue (fun column s conditions => inSet column s conditions.1 conditions.2)
    (fun _ _ _ _ _ _ filter having => ⟨filter, having⟩) (fun _ h => nomatch h)
    (fun predicate here p h => ?_) (fun _ _ _ _ h => nomatch h)
    (fun _ h => absurd h List.not_mem_nil)
    (fun _ _ first others => List.forall_mem_cons.2 ⟨first, others⟩) p
  cases h
  exact here

end Induction

/-! ## Nodes -/

mutual

/-- The predicates that a predicate is built of, itself first. -/
def Predicate.nodes : Predicate → List Predicate
  | .all parts => .all parts :: nodesOf parts
  | .any parts => .any parts :: nodesOf parts
  | .notTrue part => .notTrue part :: part.nodes
  | .inSet column s => .inSet column s :: s.nodes
  | leaf => [leaf]

/-- The predicates that some predicates are built of. -/
def nodesOf : List Predicate → List Predicate
  | [] => []
  | part :: parts => part.nodes ++ nodesOf parts

/-- The predicates that the conditions of a subquery are built of. A condition that every row meets
is none. -/
def Subquery.nodes : Subquery → List Predicate
  | ⟨_, _, _, _, filter, having⟩ => (if filter.isAlways then [] else filter.nodes) ++ having.nodes

/-- The predicates that a condition on the rows of a key is built of. -/
def Having.nodes : Having → List Predicate
  | .absent | .count _ _ _ => []
  | .noneMatch predicate => predicate.nodes

end

/-- The nodes of some predicates are those of each of them. -/
theorem nodesOf_eq_flatMap (parts : List Predicate) :
    nodesOf parts = parts.flatMap Predicate.nodes := by
  induction parts with
  | nil => rfl
  | cons part parts ih => rw [nodesOf, ih, List.flatMap_cons]

namespace Predicate

/-- Always is the predicate that is always met. -/
theorem isAlways_iff {p : Predicate} : p.isAlways = true ↔ p = .always := by
  cases p <;> simp [isAlways]

/-- Every node of a predicate passes a test. -/
def Everywhere (ok : Predicate → Bool) (p : Predicate) : Prop := ∀ q ∈ p.nodes, ok q = true

instance (ok : Predicate → Bool) (p : Predicate) : Decidable (p.Everywhere ok) :=
  inferInstanceAs (Decidable (∀ q ∈ p.nodes, ok q = true))

variable {ok : Predicate → Bool} {p : Predicate} {parts : List Predicate} {column : ColumnRef}
  {s : Subquery}

/-- The only node of a leaf is the leaf. -/
theorem everywhere_leaf (h : p.isLeaf = true) : p.Everywhere ok ↔ ok p = true := by
  have hnodes : p.nodes = [p] := by cases p <;> first | rfl | cases h
  rw [Everywhere, hnodes, List.forall_mem_singleton]

/-- The nodes of some predicates pass a test if those of each of them do. -/
theorem forall_mem_nodesOf :
    (∀ q ∈ nodesOf parts, ok q = true) ↔ ∀ part ∈ parts, part.Everywhere ok := by
  rw [nodesOf_eq_flatMap, List.forall_mem_flatMap]
  rfl

/-- The nodes of a conjunction are the conjunction and the nodes of its parts. -/
theorem everywhere_all :
    (all parts).Everywhere ok ↔ ok (all parts) = true ∧ ∀ part ∈ parts, part.Everywhere ok := by
  rw [Everywhere, nodes, List.forall_mem_cons, forall_mem_nodesOf]

/-- The nodes of a disjunction are the disjunction and the nodes of its parts. -/
theorem everywhere_any :
    (any parts).Everywhere ok ↔ ok (any parts) = true ∧ ∀ part ∈ parts, part.Everywhere ok := by
  rw [Everywhere, nodes, List.forall_mem_cons, forall_mem_nodesOf]

/-- The nodes of a complement are the complement and the nodes of its part. -/
theorem everywhere_notTrue :
    (notTrue p).Everywhere ok ↔ ok (notTrue p) = true ∧ p.Everywhere ok := by
  rw [Everywhere, nodes, List.forall_mem_cons]
  rfl

/-- The nodes of a test for keys are the test and the nodes of the conditions of its subquery. -/
theorem everywhere_inSet :
    (inSet column s).Everywhere ok ↔ ok (inSet column s) = true ∧
      (s.filter = .always ∨ s.filter.Everywhere ok) ∧
      ∀ q, s.having = .noneMatch q → q.Everywhere ok := by
  obtain ⟨table, aliasName, key, joins, filter, having⟩ := s
  have hfilter : (∀ q ∈ if filter.isAlways then [] else filter.nodes, ok q = true) ↔
      (filter = .always ∨ filter.Everywhere ok) := by
    by_cases h : filter = .always
    · simp [h, isAlways]
    · simp [h, isAlways_iff, Everywhere]
  have hhaving : (∀ q ∈ having.nodes, ok q = true) ↔
      ∀ q, having = .noneMatch q → q.Everywhere ok := by
    cases having <;> simp [Having.nodes, Everywhere]
  rw [Everywhere, nodes, List.forall_mem_cons, Subquery.nodes, List.forall_mem_append, hfilter,
    hhaving]

/-- A predicate is a node of its own. -/
theorem Everywhere.self (h : p.Everywhere ok) : ok p = true := by
  apply h
  cases p <;> simp [nodes]

/-- Nodes that pass a test pass a weaker one. -/
theorem Everywhere.mono {weaker : Predicate → Bool} (hok : ∀ q, ok q = true → weaker q = true)
    (h : p.Everywhere ok) : p.Everywhere weaker :=
  fun q hq => hok q (h q hq)

end Predicate

end RowScope
