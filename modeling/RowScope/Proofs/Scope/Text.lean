import RowScope.Proofs.Scope.Typing
import RowScope.Proofs.Sql.Names

/-!
# No value reaches SQL text

The text of a compiled scope splits into tokens, whatever characters the identifiers of the catalog,
the filters and their values have (`render_splitsInto`). Its names are the root table, the alias of
root tables in subqueries, aliases of paths, and names of tables and columns of the catalog. Its
placeholders are numbered from left to right, one for each value, and everything else is a word or a
sign that some predicate is written with. So nothing that stands in a request stands in the text.
-/

namespace RowScope

/-- A text splits into tokens with known names and symbols and with placeholders of given
numbers. -/
def SplitsInto (known : String → Prop) (numbers : List Nat) (text : String) : Prop :=
  ∃ tokens, Lexer.lex text = some tokens ∧ slots tokens = numbers ∧
    (∀ name, .name name ∈ tokens → known name) ∧
    ∀ symbol, .symbol symbol ∈ tokens → symbol ∈ sqlSymbols

/-- The text of legible pieces splits into tokens, with a placeholder for each value. -/
theorem Legible.splitsInto {known : String → Prop} {pieces : List SqlPiece} (h : Legible pieces)
    (hnames : ∀ name, .name name ∈ pieces → known name) :
    SplitsInto known (List.range' 1 (params pieces).length) (render pieces) := by
  refine ⟨numberedFrom 0 (tokens pieces), ?_, ?_, fun name hname => ?_, fun symbol hsymbol => ?_⟩
  · rw [render, Lexer.lex, String.toList_ofList, lexFrom_renderFrom h]
  · rw [slots_numberedFrom, slots_tokens]
  · exact hnames name (name_mem_tokens (of_mem_numberedFrom.1 hname))
  · exact h.symbol_mem (of_mem_numberedFrom.2 hsymbol)

/-- The names that a compiler may write for a domain: the root table, the alias of root tables in
subqueries, the aliases of paths, and the tables of the catalog and their columns. -/
inductive Compiler.Knows (c : Compiler) (domain : Domain) : String → Prop where
  | root : Knows c domain domain.rootTable
  | subqueryRoot : Knows c domain subqueryRoot
  | hop {q : ReadPath} {hop : Hop} : hop ∈ (c.paths.get q).hops → Knows c domain hop.aliasName
  | table {name : String} {table : Table} : c.catalog.table? name = some table →
    Knows c domain table.name
  | column {name column : String} {table : Table} : c.catalog.table? name = some table →
    column ∈ table.columns → Knows c domain column

namespace Compiler.Knows

variable {c : Compiler} {domain : Domain} {tables : FromList} {joins : List JoinClause}

/-- The alias of a join of a path is known. -/
theorem alias_of_join {q : ReadPath} {root : String} {kind : JoinKind} {j : JoinClause}
    (h : j ∈ (c.paths.get q).joins root kind) : c.Knows domain j.aliasName := by
  have hmem := List.mem_map_of_mem (f := JoinClause.aliasName) h
  rw [RelationPath.joins, RelationPath.aliases_joinsFrom] at hmem
  obtain ⟨hop, hhop, he⟩ := List.mem_map.1 hmem
  exact he ▸ .hop hhop

/-- A column that is listed under known aliases has known names. -/
theorem of_lists {col : ColumnRef} (h : c.catalog.Lists tables col)
    (haliases : ∀ b ∈ tables, c.Knows domain b.1) {name : String} (hname : col.Names name) :
    c.Knows domain name := by
  obtain ⟨_, table, hmem, htable, hcol⟩ := h
  rcases hname with rfl | rfl
  · exact haliases _ hmem
  · exact .column htable hcol

/-- Typed joins with known aliases to tables with known aliases have known names. -/
theorem of_typesJoins (hc : c.catalog.Coherent) (h : c.catalog.TypesJoins tables joins)
    (haliases : ∀ b ∈ tables ++ joins.map JoinClause.binding, c.Knows domain b.1)
    {j : JoinClause} (hj : j ∈ joins) {name : String} (hname : .name name ∈ j.pieces) :
    c.Knows domain name := by
  obtain ⟨hother, hon⟩ := h.lists hj
  have hown : ∀ b ∈ [j.binding], c.Knows domain b.1 := by
    intro b hb
    rw [List.mem_singleton.1 hb]
    exact haliases _ (List.mem_append_right _ (List.mem_map_of_mem hj))
  rcases JoinClause.name_mem_pieces hname with rfl | hname | hname
  · obtain ⟨_, table, hmem, htable, -⟩ := hon
    cases List.mem_singleton.1 hmem
    exact hc.table_name htable ▸ .table htable
  · exact of_lists hon hown hname
  · exact of_lists hother haliases hname

/-- A subquery along a path from the root table of a domain has known names. -/
theorem of_subquery (hc : c.catalog.Coherent) (hpaths : ReadPaths.resolve c.catalog = .ok c.paths)
    {user : Option Int64} {q : ReadPath} (hroot : q.root = domain.rootTable) {s : Subquery}
    (halong : s.Along c.paths user q) (h : s.WellTyped c.catalog) {name : String}
    (hname : .name name ∈ s.pieces) : c.Knows domain name := by
  obtain ⟨htable, kind, hjoins⟩ : s.table = (c.paths.get q).root ∧
      ∃ kind, s.joins = (c.paths.get q).joins RowScope.subqueryRoot kind := by
    cases halong <;> exact ⟨rfl, _, rfl⟩
  have haliases : ∀ b ∈ s.fromList, c.Knows domain b.1 := by
    intro b hb
    rcases List.mem_cons.1 hb with rfl | hb
    · exact h.alias_eq ▸ .subqueryRoot
    · obtain ⟨j, hj, rfl⟩ := List.mem_map.1 hb
      exact alias_of_join (hjoins ▸ hj)
  rcases Subquery.name_mem_pieces h.flat.1 h.flat.2 hname with
    rfl | hname | ⟨j, hj, hname⟩ | ⟨col, hcol, hname⟩
  · rw [htable, ReadPaths.root_eq hc hpaths, hroot]
    exact .root
  · exact of_lists h.key haliases hname
  · exact of_typesJoins hc h.joins haliases hj hname
  · exact of_lists ((List.mem_append.1 hcol).elim (h.filter col) (h.having col)) haliases hname

variable {s : Scope}

/-- The aliases of a scope are known. -/
theorem aliases {user : Option Int64}
    (htraced : Traced c.paths user domain.rootTable s.predicate s.extraJoins) :
    ∀ b ∈ s.fromList domain.rootTable, c.Knows domain b.1 := by
  intro b hb
  rcases List.mem_cons.1 hb with rfl | hb
  · exact .root
  · obtain ⟨j, hj, rfl⟩ := List.mem_map.1 hb
    obtain ⟨q, -, -, hj⟩ := htraced.steps j hj
    exact alias_of_join hj

/-- The condition of a well typed scope that comes from paths has known names. -/
theorem of_predicate (hc : c.catalog.Coherent)
    (hpaths : ReadPaths.resolve c.catalog = .ok c.paths) {user : Option Int64}
    (htraced : Traced c.paths user domain.rootTable s.predicate s.extraJoins)
    (h : s.WellTyped c.catalog domain.rootTable) {name : String}
    (hname : .name name ∈ s.predicate.pieces) : c.Knows domain name := by
  rcases Predicate.name_mem_pieces hname with ⟨col, hcol, hname⟩ | ⟨sub, hsub, hname⟩
  · exact of_lists (h.columns col hcol) (aliases htraced) hname
  · obtain ⟨a, ha, hsubquery⟩ := Predicate.mem_subqueries.1 hsub
    cases htraced.atoms a ha with
    | @row q v _ _ _ _ hv hatom =>
      have hnone := Predicate.subquery?_of_flat hv.inspects.reads.flat hatom
      rw [hnone] at hsubquery
      cases hsubquery
    | keys hroot _ halong =>
      cases hsubquery
      exact of_subquery hc hpaths hroot halong (h.subqueries _ hsub) hname

end Compiler.Knows

/-- The texts of a compiled scope split into tokens, whatever the identifiers and the values are:
the condition into known names, fixed words and signs, and placeholders for the values in their
order, and each join into known names and fixed words and signs. -/
theorem render_splitsInto {config : Config} {catalog : Catalog} {table : RuleTable} {c : Compiler}
    (hcatalog : catalog.Built) (htable : RuleTable.standard = .ok table)
    (hc : Compiler.ofParts config catalog table = .ok c) {domain : Domain} {filters : FilterSet}
    {user : Option Int64} {s : Scope} (hs : c.compileDomain domain filters user = .ok s) :
    SplitsInto (c.Knows domain) (List.range' 1 s.render.params.length) s.render.whereClause ∧
      ∀ join ∈ s.render.joins, SplitsInto (c.Knows domain) [] join := by
  have hlawful := Compiler.lawful_ofParts hcatalog htable hc
  obtain ⟨-, -, -, -, rfl, -⟩ := Compiler.ofParts_eq_ok.1 hc
  obtain ⟨start, hstart⟩ := hlawful.exists_root domain
  have htraced := hlawful.traced_compiled hs
  have hwell := htraced.wellTyped hlawful.coherent hlawful.paths hstart
    (hlawful.sound_compiled hstart hs)
  refine ⟨s.predicate.legible.splitsInto fun name hname => ?_, fun join hjoin => ?_⟩
  · exact Compiler.Knows.of_predicate hlawful.coherent hlawful.paths htraced hwell hname
  · obtain ⟨j, hj, rfl⟩ := List.mem_map.1 hjoin
    have hnames : ∀ name, .name name ∈ j.pieces → c.Knows domain name := fun name hname =>
      .of_typesJoins hlawful.coherent hwell.joins (Compiler.Knows.aliases htraced) hj hname
    -- A join binds no value.
    have hnone : params j.pieces = [] := rfl
    have hsplits := j.legible.splitsInto hnames
    rwa [hnone] at hsplits

/-- The reports with a recipient like a text and outside of two regions are sought by a text that
splits into tokens. -/
theorem splitsInto_recipientAndRegion :
    ∃ catalog table c s, Catalog.standard = .ok catalog ∧ RuleTable.standard = .ok table ∧
      Compiler.ofParts Config.common catalog table = .ok c ∧
      c.compileDomain .activityReport .recipientAndRegion none = .ok s ∧
      SplitsInto (c.Knows .activityReport) (List.range' 1 s.render.params.length)
        s.render.whereClause ∧
      ∀ join ∈ s.render.joins, SplitsInto (c.Knows .activityReport) [] join := by
  obtain ⟨c, hc, hcompiles⟩ := Compiler.exists_common
  obtain ⟨catalog, table, hcatalog, htable, hparts⟩ := Compiler.ofConfig_eq_ok.1 hc
  obtain ⟨s, hs⟩ := hcompiles .activityReport .recipientAndRegion none
  exact ⟨catalog, table, c, s, hcatalog, htable, hparts, hs,
    render_splitsInto (Catalog.built_of_build hcatalog) htable hparts hs⟩

end RowScope
