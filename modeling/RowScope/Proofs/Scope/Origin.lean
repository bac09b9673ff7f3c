import RowScope.Proofs.Compiler

/-!
# Where the parts of a compiled scope come from

Every atom of a compiled scope either stands in a condition on the row at the end of a path whose
joins the scope has, or tests for the keys of a subquery along a path (`Origin`), and every join of
the scope belongs to such a path. `Lawful.traced_compiled` says so of all compiled scopes, so what
is true of the paths of a catalog and of the conditions that rules state is true of the scope.
-/

namespace RowScope

/-- The left joins of a path to its root table. -/
abbrev RelationPath.outerJoins (p : RelationPath) : List JoinClause := p.joins p.root .left

/-- A subquery for the keys of the rows with a related row that meets a condition, without one, or
with some number of related rows. -/
inductive Subquery.Along (paths : ReadPaths) (user : Option Int64) (q : ReadPath) :
    Subquery → Prop where
  | anyRow {v : Predicate} : Asks paths user q v → Along paths user q
    ⟨(paths.get q).root, subqueryRoot, (paths.get q).rootKey,
      (paths.get q).joins subqueryRoot .inner, v, .absent⟩
  | noRow {v : Predicate} : Asks paths user q v → Along paths user q
    ⟨(paths.get q).root, subqueryRoot, (paths.get q).rootKey,
      (paths.get q).joins subqueryRoot .left, .always, .noneMatch v⟩
  | counted {op : CompareOp} {n : Int64} : q.readsGroups = false → Along paths user q
    ⟨(paths.get q).root, subqueryRoot, (paths.get q).rootKey,
      (paths.get q).joins subqueryRoot .left, .always, .count (paths.get q).terminalKey op n⟩

/-- Where an atom of a condition on a root table with some joins comes from. -/
inductive Origin (paths : ReadPaths) (user : Option Int64) (root : String)
    (joins : List JoinClause) : Predicate → Prop where
  | row {q : ReadPath} {v a : Predicate} : q.root = root → (paths.get q).fansOut = false →
    (paths.get q).outerJoins ⊆ joins → Asks paths user q v → a ∈ v.atoms →
      Origin paths user root joins a
  | keys {q : ReadPath} {s : Subquery} : q.root = root → (paths.get q).hops ≠ [] →
    s.Along paths user q → Origin paths user root joins (.inSet (paths.get q).outerKey s)

/-- The joins and the atoms of a condition on a root table come from paths. -/
structure Traced (paths : ReadPaths) (user : Option Int64) (root : String) (predicate : Predicate)
    (joins : List JoinClause) : Prop where
  /-- Every join belongs to a path to at most one row. -/
  steps : ∀ j ∈ joins, ∃ q : ReadPath, q.root = root ∧ (paths.get q).fansOut = false ∧
    j ∈ (paths.get q).outerJoins
  /-- Every atom comes from a path. -/
  atoms : ∀ a ∈ predicate.atoms, Origin paths user root joins a

/-- What comes from paths comes from them under more joins. -/
theorem Origin.mono {paths : ReadPaths} {user : Option Int64} {root : String}
    {joins more : List JoinClause} (hsub : joins ⊆ more) {a : Predicate}
    (h : Origin paths user root joins a) : Origin paths user root more a := by
  cases h with
  | row hroot hone hjoins hasks ha => exact .row hroot hone (List.Subset.trans hjoins hsub) hasks ha
  | keys hroot hhops hs => exact .keys hroot hhops hs

namespace Traced

variable {paths : ReadPaths} {user : Option Int64} {root : String} {mode : Mode}

/-- A condition on the rows at the end of one path comes from that path. -/
theorem existsAlong {q : ReadPath} {v : Predicate} (hroot : q.root = root)
    (hv : Asks paths user q v) :
    Traced paths user root ((paths.get q).existsAlong v mode).predicate
      ((paths.get q).existsAlong v mode).extraJoins := by
  rw [RelationPath.extraJoins_existsAlong]
  unfold RelationPath.existsAlong
  by_cases hf : (paths.get q).fansOut
  · -- The condition is asked in a subquery, and the scope takes no joins.
    rw [if_pos hf, if_pos hf]
    have hhops := RelationPath.hops_ne_nil_of_fansOut hf
    refine ⟨fun j hj => absurd hj List.not_mem_nil, fun a ha => ?_⟩
    cases mode with
    | including =>
      rw [List.mem_singleton.1 ha]
      exact .keys hroot hhops (.anyRow hv)
    | excluding =>
      rw [List.mem_singleton.1 ha]
      exact .keys hroot hhops (.noRow hv)
  · rw [if_neg hf, if_neg hf]
    have hone : (paths.get q).fansOut = false := Bool.eq_false_iff.2 hf
    refine ⟨fun j hj => ⟨q, hroot, hone, hj⟩, fun a ha => ?_⟩
    cases mode with
    | including => exact .row hroot hone (List.Subset.refl _) hv ha
    | excluding => exact .row hroot hone (List.Subset.refl _) hv (Predicate.atoms_negate v ▸ ha)

/-- Conditions on the rows at the end of several paths come from those paths, if their joins
agree. -/
theorem existsAlongAny {targets : List (RelationPath × Predicate)}
    (h : ∀ t ∈ targets, ∃ q : ReadPath, q.root = root ∧ t.1 = paths.get q ∧ Asks paths user q t.2)
    (hagree : JoinsAgree (targetJoins targets mode)) :
    Traced paths user root (existsAlongAny targets mode).predicate
      (existsAlongAny targets mode).extraJoins := by
  have traced : ∀ t ∈ targets, Traced paths user root (t.1.existsAlong t.2 mode).predicate
      (t.1.existsAlong t.2 mode).extraJoins := by
    rintro ⟨p, v⟩ ht
    obtain ⟨q, hroot, rfl, hv⟩ := h _ ht
    exact existsAlong hroot hv
  rw [extraJoins_existsAlongAny, predicate_existsAlongAny]
  -- The joins of each path are among the merged ones.
  have hsub : targetJoins targets mode ⊆ mergeJoins [] (targetJoins targets mode) :=
    subset_mergeJoins (show JoinsAgree ([] ++ targetJoins targets mode) from hagree)
  have of_part : ∀ part ∈ targets.map fun t => (t.1.existsAlong t.2 mode).predicate,
      ∀ a ∈ part.atoms,
        Origin paths user root (mergeJoins [] (targetJoins targets mode)) a := by
    intro part hpart a ha
    obtain ⟨t, ht, rfl⟩ := List.mem_map.1 hpart
    refine ((traced t ht).atoms a ha).mono fun j hj => hsub ?_
    exact List.mem_flatMap.2 ⟨t, ht, hj⟩
  refine ⟨fun j hj => ?_, fun a ha => ?_⟩
  · have hmem := (mem_of_mem_mergeJoins hj).resolve_left List.not_mem_nil
    obtain ⟨t, ht, hj⟩ := List.mem_flatMap.1 hmem
    exact (traced t ht).steps j hj
  · have hatom : ∃ part ∈ targets.map fun t => (t.1.existsAlong t.2 mode).predicate,
        a ∈ part.atoms := by
      cases mode with
      | including => exact Predicate.atoms_disj ha
      | excluding => exact Predicate.atoms_conj ha
    obtain ⟨part, hpart, ha⟩ := hatom
    exact of_part part hpart a ha

/-- What the standard rules make of values comes from paths. -/
theorem of_contributes {c : Catalog} (hc : c.Coherent) (hpaths : ReadPaths.resolve c = .ok paths)
    {start : Table} (hstart : c.table? root = some start) {a : Association}
    (h : Contributes paths user root a) :
    Traced paths user root a.predicate a.extraJoins := by
  cases h with
  | related h =>
    apply existsAlongAny h
    exact Catalog.joinsAgree_of_direct fun j hj =>
      Sound.direct_targetJoins hc (Asks.serves hc hpaths hstart h) hj
  | @count q sizes hroot hhops hgroups =>
    refine ⟨fun j hj => absurd hj List.not_mem_nil, fun b hb => ?_⟩
    obtain ⟨part, hpart, hb⟩ := Predicate.atoms_disj hb
    obtain ⟨size, -, rfl⟩ := List.mem_map.1 hpart
    rw [List.mem_singleton.1 hb]
    exact .keys hroot (ReadPaths.hops_ne_nil hc hpaths hhops) (.counted hgroups)
  | never =>
    exact ⟨fun j hj => absurd hj List.not_mem_nil, fun b hb => absurd hb List.not_mem_nil⟩

/-- A scope under one more condition comes from paths if both do and their joins agree. -/
theorem constrain {s : Scope} {a : Association}
    (hs : Traced paths user root s.predicate s.extraJoins)
    (ha : Traced paths user root a.predicate a.extraJoins)
    (hagree : JoinsAgree (s.extraJoins ++ a.extraJoins)) :
    Traced paths user root (s.constrain a).predicate (s.constrain a).extraJoins where
  steps j hj := (mem_of_mem_mergeJoins hj).elim (hs.steps j) (ha.steps j)
  atoms b hb := by
    obtain ⟨part, hpart, hb⟩ := Predicate.atoms_conj hb
    rcases List.mem_cons.1 hpart with rfl | hpart
    · exact (hs.atoms b hb).mono (mergeJoins_extends s.extraJoins a.extraJoins).subset
    · rw [List.mem_singleton.1 hpart] at hb
      exact (ha.atoms b hb).mono (subset_mergeJoins hagree)

end Traced

/-- A compiled scope comes from paths. -/
theorem Compiler.Lawful.traced_compiled {c : Compiler} (h : c.Lawful) {domain : Domain}
    {filters : FilterSet} {user : Option Int64} {s : Scope}
    (hs : c.compileDomain domain filters user = .ok s) :
    Traced c.paths user domain.rootTable s.predicate s.extraJoins := by
  obtain ⟨start, hstart⟩ := h.exists_root domain
  refine h.compiled_induction hstart
    (P := fun s => Traced c.paths user domain.rootTable s.predicate s.extraJoins) ?_ ?_ hs
  · exact ⟨fun j hj => absurd hj List.not_mem_nil, fun a ha => absurd ha List.not_mem_nil⟩
  · intro s a hsound ha htraced
    have hmade := ha.sound h.coherent h.paths hstart
    apply htraced.constrain (Traced.of_contributes h.coherent h.paths hstart ha)
    exact Catalog.joinsAgree_of_direct fun j hj =>
      (List.mem_append.1 hj).elim (hsound.direct j) (hmade.direct j)

end RowScope
