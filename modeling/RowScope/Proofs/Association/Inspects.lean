import RowScope.Proofs.Association.Reads

/-!
# Comparisons of terminal columns

Rules build their conditions on related rows from comparisons of columns of the terminal table, by
disjunctions and conjunctions (`Inspects`). Such a condition reads the terminal row
(`Inspects.reads`), and looks at no columns but the given ones (`Inspects.columns`). None of its
comparisons is written as another one would be: a list of alternatives is not empty, and equality is
not stated as a comparison by an operator (`Predicate.isPlain`).
-/

namespace RowScope

/-- Whether no other form of comparison has the text of this one. -/
def Predicate.isPlain : Predicate → Bool
  | oneOf _ values => !values.isEmpty
  | compare _ op _ => op ≠ .eq
  | always | never | equals _ _ | between _ _ _ | like _ _ | overlaps _ _ | sameElements _ _
  | isNull _ | all _ | any _ | notTrue _ | inSet _ _ => true

/-- A condition on the row at the end of a path that is built from comparisons of some of its
columns. A missing value is looked for only where there is always a row. -/
inductive Inspects (p : RelationPath) (read : String → Prop) : Predicate → Prop where
  | comparison {a : Predicate} {column : String} :
    a.comparison? = some (p.terminalColumn column) → a.isPlain = true → read column →
      Inspects p read a
  | isNull {column : String} :
    p.hops = [] → read column → Inspects p read (.isNull (p.terminalColumn column))
  | disj {parts : List Predicate} :
    (∀ part ∈ parts, Inspects p read part) → Inspects p read (.disj parts)
  | conj {parts : List Predicate} :
    parts ≠ [] → (∀ part ∈ parts, Inspects p read part) → Inspects p read (.conj parts)

namespace Inspects

variable {p : RelationPath} {read : String → Prop} {v : Predicate} {column : String}

/-- A condition that looks at some columns looks at more. -/
theorem mono {more : String → Prop} (hsub : ∀ column, read column → more column)
    (h : Inspects p read v) : Inspects p more v := by
  induction h with
  | comparison hcol hplain hread => exact .comparison hcol hplain (hsub _ hread)
  | isNull hnil hread => exact .isNull hnil (hsub _ hread)
  | disj _ ih => exact .disj ih
  | conj hsome _ ih => exact .conj hsome ih

/-- A condition built from comparisons of terminal columns is a condition on the terminal row. -/
theorem reads (h : Inspects p read v) : Reads (p, v) := by
  induction h with
  | comparison hcol _ _ => exact reads_comparison hcol
  | isNull hnil _ => exact reads_isNull hnil
  | disj _ ih => exact reads_disj ih
  | conj hsome _ ih => exact reads_conj hsome ih

/-- The columns that a condition looks at are those that it is built from. -/
theorem columns (h : Inspects p read v) :
    ∀ c ∈ v.columns, ∃ column, read column ∧ c = p.terminalColumn column := by
  -- A column of a whole is looked at by an atom, which is an atom of one of the parts.
  have of_parts : ∀ {parts : List Predicate} {whole : Predicate},
      (∀ part ∈ parts, ∀ c ∈ part.columns, ∃ column, read column ∧ c = p.terminalColumn column) →
      (∀ a ∈ whole.atoms, ∃ part ∈ parts, a ∈ part.atoms) →
      ∀ c ∈ whole.columns, ∃ column, read column ∧ c = p.terminalColumn column := by
    intro parts whole hparts hatoms c hc
    obtain ⟨a, ha, hcol⟩ := Predicate.mem_columns.1 hc
    obtain ⟨part, hpart, hmem⟩ := hatoms a ha
    exact hparts part hpart c (Predicate.mem_columns.2 ⟨a, hmem, hcol⟩)
  induction h with
  | @comparison a column hcol _ hread =>
    have hcols : a.columns = [p.terminalColumn column] := by
      cases a <;> cases hcol <;> rfl
    intro c hc
    rw [hcols, List.mem_singleton] at hc
    exact ⟨column, hread, hc⟩
  | @isNull column _ hread =>
    intro c hc
    exact ⟨column, hread, List.mem_singleton.1 hc⟩
  | disj _ ih => exact of_parts ih fun _ ha => Predicate.atoms_disj ha
  | conj _ _ ih => exact of_parts ih fun _ ha => Predicate.atoms_conj ha

end Inspects

end RowScope
