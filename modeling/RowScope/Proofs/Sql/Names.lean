import RowScope.Proofs.Memory.Subquery
import RowScope.Proofs.Sql.Tokens

/-!
# Names and symbols of rendered predicates

The names in the text of a predicate are those of the columns that it looks at, and of the tables,
joins and columns of its subqueries (`Predicate.name_mem_pieces`, `Subquery.name_mem_pieces`). What
else the text has, besides placeholders, is one of finitely many words and signs (`sqlSymbols`).
-/

namespace RowScope

/-- The words, operators and punctuation marks of rendered texts. -/
def sqlSymbols : List String :=
  ["SELECT", "DISTINCT", "FROM", "AS", "INNER", "LEFT", "JOIN", "ON", "WHERE", "GROUP", "BY",
    "HAVING", "COALESCE", "BOOL_OR", "COUNT", "TRUE", "FALSE", "IS", "NOT", "NULL", "IN", "BETWEEN",
    "AND", "OR", "ILIKE", "text", "=", "<", "<=", ">", ">=", "&&", "@>", "<@", "::", ".", ",", "(",
    ")", "[", "]"]

/-- The symbols of the code between names and values are known. -/
theorem mem_sqlSymbols : ∀ text ∈ sqlCodes, ∀ symbol ∈ codeSymbols text, symbol ∈ sqlSymbols := by
  decide +kernel

/-- The symbols of legible pieces are known. -/
theorem Legible.symbol_mem {pieces : List SqlPiece} (h : Legible pieces) {symbol : String}
    (hmem : .symbol symbol ∈ tokens pieces) : symbol ∈ sqlSymbols := by
  obtain ⟨piece, hpiece, hmem⟩ := List.mem_flatMap.1 hmem
  cases piece with
  | code text =>
    obtain ⟨other, hother, he⟩ := List.mem_map.1 hmem
    exact SqlToken.symbol.inj he ▸ mem_sqlSymbols text (h.codes text hpiece) other hother
  | name text => cases List.mem_singleton.1 hmem
  | param value => cases List.mem_singleton.1 hmem

/-- The names among the tokens of some pieces are pieces. -/
theorem name_mem_tokens {pieces : List SqlPiece} {name : String}
    (h : .name name ∈ tokens pieces) : .name name ∈ pieces := by
  obtain ⟨piece, hpiece, hmem⟩ := List.mem_flatMap.1 h
  cases piece with
  | code text =>
    obtain ⟨other, -, he⟩ := List.mem_map.1 hmem
    cases he
  | name text =>
    cases List.mem_singleton.1 hmem
    exact hpiece
  | param value => cases List.mem_singleton.1 hmem

/-! ## Names of predicates -/

/-- A name is the alias or the name of a column. -/
def ColumnRef.Names (c : ColumnRef) (name : String) : Prop := name = c.aliasName ∨ name = c.column

variable {name : String}

/-- The names of a column. -/
theorem ColumnRef.name_mem_pieces {c : ColumnRef} : .name name ∈ c.pieces ↔ c.Names name := by
  simp [pieces, Names]

/-- The names of a join. -/
theorem JoinClause.name_mem_pieces {j : JoinClause} (h : .name name ∈ j.pieces) :
    name = j.table ∨ (ColumnRef.mk j.aliasName j.onColumn).Names name ∨ j.other.Names name := by
  simp only [pieces, List.mem_append, List.mem_cons, ColumnRef.name_mem_pieces, reduceCtorEq,
    SqlPiece.name.injEq, List.not_mem_nil, false_or, or_false] at h
  rcases h with ((rfl | rfl) | hcolumn) | hother
  · exact .inl rfl
  · exact .inr (.inl (.inl rfl))
  · exact .inr (.inl hcolumn)
  · exact .inr (.inr hother)

/-- The names of pieces with code between them. -/
theorem name_mem_separated {separator : String} {parts : List (List SqlPiece)}
    (h : .name name ∈ separated separator parts) : ∃ pieces ∈ parts, .name name ∈ pieces := by
  fun_induction separated separator parts with
  | case1 => exact absurd h List.not_mem_nil
  | case2 pieces => exact ⟨pieces, List.mem_cons_self, h⟩
  | case3 pieces rest _ ih =>
    rcases List.mem_append.1 h with h | h
    · exact ⟨pieces, List.mem_cons_self, h⟩
    · have h : .name name ∈ separated separator rest := by simpa using h
      obtain ⟨others, hmem, hname⟩ := ih h
      exact ⟨others, List.mem_cons_of_mem pieces hmem, hname⟩

/-- The pieces of the predicates of a list. -/
theorem piecesOfParts_eq (parts : List Predicate) :
    piecesOfParts parts = parts.map Predicate.pieces := by
  induction parts with
  | nil => rfl
  | cons part parts ih => rw [piecesOfParts, ih, List.map_cons]

/-- A name of a connective's text is a name of one of the parts. -/
theorem name_mem_parts {opening separator closing : String} {parts : List Predicate}
    (h : .name name ∈ .code opening :: separated separator (piecesOfParts parts) ++
      [.code closing]) : ∃ part ∈ parts, .name name ∈ part.pieces := by
  have hmem : .name name ∈ separated separator (piecesOfParts parts) := by simpa using h
  obtain ⟨pieces, hpieces, hname⟩ := name_mem_separated hmem
  rw [piecesOfParts_eq] at hpieces
  obtain ⟨part, hpart, rfl⟩ := List.mem_map.1 hpieces
  exact ⟨part, hpart, hname⟩

namespace Predicate

/-- The names of an atom are those of its column and of its subquery. -/
theorem name_mem_atom {a : Predicate} {col : ColumnRef} (hcol : a.column? = some col)
    (h : .name name ∈ a.pieces) :
    col.Names name ∨ ∃ s, a.subquery? = some s ∧ .name name ∈ s.pieces := by
  cases a <;> cases hcol
  case oneOf values =>
    cases values with
    | nil => simp [pieces] at h
    | cons value values =>
      -- The values between the commas are no names.
      have hvalues : .name name ∉ separated ", " ((value :: values).map fun v => [.param v]) := by
        intro hmem
        obtain ⟨pieces, hpieces, hname⟩ := name_mem_separated hmem
        obtain ⟨v, -, rfl⟩ := List.mem_map.1 hpieces
        cases List.mem_singleton.1 hname
      simp only [pieces, List.mem_append, List.mem_cons, hvalues, ColumnRef.name_mem_pieces] at h
      exact .inl (by simpa using h)
  case inSet s => simpa [pieces, subquery?, ColumnRef.name_mem_pieces] using h
  all_goals exact .inl (by simpa [pieces, ColumnRef.name_mem_pieces] using h)

/-- The names of a predicate are those of the columns that it looks at and of its subqueries. -/
theorem name_mem_pieces {p : Predicate} (h : .name name ∈ p.pieces) :
    (∃ col ∈ p.columns, col.Names name) ∨ ∃ s ∈ p.subqueries, .name name ∈ s.pieces := by
  have atom : ∃ a ∈ p.atoms, .name name ∈ a.pieces := by
    induction p using connective_induction with
    | always | never => simp [pieces] at h
    | atom a c ha _ => exact ⟨a, ha ▸ List.mem_singleton_self a, h⟩
    | all parts ih | any parts ih =>
      obtain ⟨part, hpart, hname⟩ := name_mem_parts h
      obtain ⟨a, ha, hname⟩ := ih part hpart hname
      exact ⟨a, mem_atomsOf.2 ⟨part, hpart, ha⟩, hname⟩
    | notTrue part ih => exact ih (by simpa [pieces] using h)
  obtain ⟨a, ha, hname⟩ := atom
  obtain ⟨-, col, hcol⟩ := atom_of_mem ha
  rcases name_mem_atom hcol hname with hname | ⟨s, hs, hname⟩
  · exact .inl ⟨col, mem_columns.2 ⟨a, ha, hcol⟩, hname⟩
  · exact .inr ⟨s, mem_subqueries.2 ⟨a, ha, hs⟩, hname⟩

/-- The names of a predicate without subqueries are those of the columns that it looks at. -/
theorem name_mem_of_flat {p : Predicate} (hflat : p.subqueries = []) (h : .name name ∈ p.pieces) :
    ∃ col ∈ p.columns, col.Names name := by
  refine (name_mem_pieces h).resolve_right ?_
  rw [hflat]
  rintro ⟨s, hs, -⟩
  exact absurd hs List.not_mem_nil

end Predicate

/-- The names of a subquery without subqueries inside. -/
theorem Subquery.name_mem_pieces {s : Subquery} (hfilter : s.filter.subqueries = [])
    (hhaving : s.having.subqueries = []) (h : .name name ∈ s.pieces) :
    name = s.table ∨ s.keyColumn.Names name ∨ (∃ j ∈ s.joins, .name name ∈ j.pieces) ∨
      ∃ col ∈ s.filter.columns ++ s.having.columns, col.Names name := by
  obtain ⟨table, aliasName, key, joins, filter, having⟩ := s
  have hselection : .name name ∉ having.selection := by cases having <;> simp [Having.selection]
  have hrows : ∀ col : ColumnRef, .name name ∈ having.pieces col.pieces →
      col.Names name ∨ ∃ c ∈ having.columns, c.Names name := by
    intro col hmem
    cases having with
    | absent => exact absurd hmem List.not_mem_nil
    | noneMatch p =>
      have hmem : col.Names name ∨ .name name ∈ p.pieces := by
        simpa [Having.pieces, ColumnRef.name_mem_pieces] using hmem
      exact hmem.imp_right (Predicate.name_mem_of_flat hhaving)
    | count column op n =>
      simpa [Having.pieces, Having.columns, ColumnRef.name_mem_pieces] using hmem
  simp only [pieces, List.mem_append, List.mem_cons, List.mem_flatMap, hselection,
    ColumnRef.name_mem_pieces, reduceCtorEq, SqlPiece.name.injEq, List.not_mem_nil, false_or,
    or_false] at h
  rcases h with (((hkey | rfl | rfl) | ⟨j, hj, hname⟩) | hwhere) | hhaving
  · exact .inr (.inl hkey)
  · exact .inl rfl
  · exact .inr (.inl (.inl rfl))
  · exact .inr (.inr (.inl ⟨j, hj, hname⟩))
  · have hname : .name name ∈ filter.pieces := by
      split at hwhere
      · exact absurd hwhere List.not_mem_nil
      · simpa using hwhere
    obtain ⟨col, hcol, hname⟩ := Predicate.name_mem_of_flat hfilter hname
    exact .inr (.inr (.inr ⟨col, List.mem_append_left _ hcol, hname⟩))
  · rcases hrows ⟨aliasName, key⟩ hhaving with hkey | ⟨col, hcol, hname⟩
    · exact .inr (.inl hkey)
    · exact .inr (.inr (.inr ⟨col, List.mem_append_right _ hcol, hname⟩))

end RowScope
