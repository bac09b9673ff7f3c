import RowScope.Proofs.Compiler
import RowScope.Proofs.Sql.Canonical

/-!
# Compiled scopes are canonical

The condition of every compiled scope is canonical (`Lawful.canonical_compiled`): rules state plain
comparisons, and scopes put them together by the simplifying constructors only.
-/

namespace RowScope

open Predicate (Canonical)

namespace Predicate.Canonical

variable {p : RelationPath} {v : Predicate}

/-- A test for the keys of a subquery with a canonical condition is canonical. -/
theorem existsAlong (h : Canonical v) (mode : Mode) :
    Canonical (p.existsAlong v mode).predicate := by
  unfold RelationPath.existsAlong
  split
  · cases mode with
    | including => exact .inSet h nofun
    | excluding =>
      refine .inSet .always fun q hq => ?_
      cases hq
      exact h
  · cases mode with
    | including => exact h
    | excluding => exact h.negate

/-- Canonical conditions on the rows at the end of paths are canonical together. -/
theorem existsAlongAny {targets : List (RelationPath × Predicate)}
    (h : ∀ t ∈ targets, Canonical t.2) (mode : Mode) :
    Canonical (existsAlongAny targets mode).predicate := by
  have parts : ∀ part ∈ (targets.map fun t => t.1.existsAlong t.2 mode).map Association.predicate,
      Canonical part := by
    intro part hpart
    rw [List.map_map] at hpart
    obtain ⟨t, ht, rfl⟩ := List.mem_map.1 hpart
    exact existsAlong (h t ht) mode
  cases mode with
  | including => exact .disj parts
  | excluding => exact .conj parts

/-- What the standard rules make of values is canonical. -/
theorem of_contributes {paths : ReadPaths} {user : Option Int64} {root : String} {a : Association}
    (h : Contributes paths user root a) : Canonical a.predicate := by
  cases h with
  | related h =>
    refine existsAlongAny (fun t ht => ?_) _
    obtain ⟨q, -, -, hasks⟩ := h t ht
    exact hasks.inspects.canonical
  | count _ _ _ =>
    apply Canonical.disj
    intro part hpart
    obtain ⟨size, -, rfl⟩ := List.mem_map.1 hpart
    exact .inSet .always nofun
  | never => exact .never

end Predicate.Canonical

/-- The condition of a compiled scope is canonical. -/
theorem Compiler.Lawful.canonical_compiled {c : Compiler} (h : c.Lawful) {domain : Domain}
    {filters : FilterSet} {user : Option Int64} {s : Scope}
    (hs : c.compileDomain domain filters user = .ok s) : s.predicate.Canonical := by
  obtain ⟨start, hstart⟩ := h.exists_root domain
  refine h.compiled_induction hstart (P := fun s => s.predicate.Canonical) .always ?_ hs
  intro s a _ ha hcanonical
  apply Canonical.conj
  intro part hpart
  rcases List.mem_cons.1 hpart with rfl | hpart
  · exact hcanonical
  · exact List.mem_singleton.1 hpart ▸ .of_contributes ha

end RowScope
