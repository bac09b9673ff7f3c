import RowScope.Proofs.Memory.Related

/-!
# Typed joins

A FROM list binds aliases to tables. Joins are typed in a catalog (`Catalog.TypesJoins`) if each of
them has an alias that is new to the list and compares a column that its own table lists with a
column that the table under an alias before it lists. The joins of a path are so typed: each hop
joins on columns of the two tables that its edge joins (`Catalog.wired_joinsFrom`), and a list of
joins in which aliases determine tables inherits that from the paths that the joins belong to
(`Catalog.typesJoins_of_wired`).
-/

namespace RowScope

/-- The aliases of a FROM list, each with its table. -/
abbrev FromList : Type := List (String × String)

/-- The alias that a join introduces, with its table. -/
def JoinClause.binding (j : JoinClause) : String × String := (j.aliasName, j.table)

namespace Catalog

/-- The table under the alias of a column is in the catalog and lists the column. -/
def Lists (c : Catalog) (tables : FromList) (col : ColumnRef) : Prop :=
  ∃ name table, (col.aliasName, name) ∈ tables ∧ c.table? name = some table ∧
    col.column ∈ table.columns

/-- Joins after some tables of a FROM list: each has an alias that is not taken, its table lists the
column that it joins on, and it refers to a column of a table before it. -/
def TypesJoins (c : Catalog) : FromList → List JoinClause → Prop
  | _, [] => True
  | tables, j :: joins =>
    j.aliasName ∉ tables.map Prod.fst ∧ c.Lists tables j.other ∧
      c.Lists [j.binding] ⟨j.aliasName, j.onColumn⟩ ∧ c.TypesJoins (tables ++ [j.binding]) joins

variable {c : Catalog} {tables : FromList} {joins : List JoinClause} {col : ColumnRef}

/-- More tables list more columns. -/
theorem Lists.mono {more : FromList} (hsub : tables ⊆ more) (h : c.Lists tables col) :
    c.Lists more col := by
  obtain ⟨name, table, hmem, htable, hcol⟩ := h
  exact ⟨name, table, hsub hmem, htable, hcol⟩

/-- A listed column has the alias of one of the tables. -/
theorem Lists.bound (h : c.Lists tables col) : col.aliasName ∈ tables.map Prod.fst := by
  obtain ⟨name, table, hmem, -, -⟩ := h
  exact List.mem_map_of_mem hmem

/-- Typed joins refer to aliases before them. -/
theorem TypesJoins.joinsBound {bound : List String} (h : c.TypesJoins tables joins)
    (hsub : tables.map Prod.fst ⊆ bound) : JoinsBound bound joins := by
  induction joins generalizing tables bound with
  | nil => exact True.intro
  | cons j joins ih =>
    obtain ⟨-, hother, -, hrest⟩ := h
    refine ⟨hsub hother.bound, ih hrest ?_⟩
    rw [List.map_append, List.append_subset]
    exact ⟨List.subset_cons_of_subset j.aliasName hsub, by simp [JoinClause.binding]⟩

/-- Each of some typed joins compares columns that are listed. -/
theorem TypesJoins.lists (h : c.TypesJoins tables joins) {j : JoinClause} (hj : j ∈ joins) :
    c.Lists (tables ++ joins.map JoinClause.binding) j.other ∧
      c.Lists [j.binding] ⟨j.aliasName, j.onColumn⟩ := by
  induction joins generalizing tables with
  | nil => exact absurd hj List.not_mem_nil
  | cons first joins ih =>
    obtain ⟨-, hother, hon, hrest⟩ := h
    rcases List.mem_cons.1 hj with rfl | hj
    · exact ⟨hother.mono (List.subset_append_left _ _), hon⟩
    · have hlists := ih hrest hj
      rwa [List.append_assoc, List.singleton_append] at hlists

/-! ## Joins of known tables -/

/-- A join is wired to some known bindings if its own is one of them, its table lists the column
that it joins on, and a known table lists the column that it refers to. -/
structure Wired (c : Catalog) (known : String × String → Prop) (j : JoinClause) : Prop where
  /-- The alias of the join and its table are known. -/
  own : known j.binding
  /-- The table of the join lists its column. -/
  onColumn : c.Lists [j.binding] ⟨j.aliasName, j.onColumn⟩
  /-- A known table lists the other column. -/
  other : ∃ b, known b ∧ c.Lists [b] j.other

/-- Joins that are wired to known bindings are wired to more. -/
theorem Wired.mono {known more : String × String → Prop} (hsub : ∀ b, known b → more b)
    {j : JoinClause} (h : c.Wired known j) : c.Wired more j := by
  obtain ⟨b, hb, hlists⟩ := h.other
  exact ⟨hsub _ h.own, h.onColumn, b, hsub b hb, hlists⟩

/-- Wired joins with new aliases, each of which refers to an alias before it, are typed if the known
bindings give no alias two tables. -/
theorem typesJoins_of_wired {known : String × String → Prop}
    (hagree : ∀ a b, known a → known b → a.1 = b.1 → a = b) (htables : ∀ b ∈ tables, known b)
    {bound : List String} (hbound : JoinsBound bound joins) (hsub : bound ⊆ tables.map Prod.fst)
    (hdistinct : (tables.map Prod.fst ++ joins.map JoinClause.aliasName).Nodup)
    (hwired : ∀ j ∈ joins, c.Wired known j) : c.TypesJoins tables joins := by
  induction joins generalizing tables bound with
  | nil => exact True.intro
  | cons j joins ih =>
    obtain ⟨hj, hwired⟩ := List.forall_mem_cons.1 hwired
    have hnew : j.aliasName ∉ tables.map Prod.fst := by
      intro hmem
      exact (List.nodup_append.1 hdistinct).2.2 _ hmem _ List.mem_cons_self rfl
    have hother : c.Lists tables j.other := by
      -- The alias is bound to some known table, and the one that lists the column is known too.
      obtain ⟨b, hb, hlists⟩ := hj.other
      obtain ⟨a, ha, he⟩ := List.mem_map.1 (hsub hbound.1)
      have hname : j.other.aliasName = b.1 := List.mem_singleton.1 hlists.bound
      have hab : b = a := hagree b a hb (htables a ha) (hname.symm.trans he.symm)
      exact hlists.mono (List.cons_subset.2 ⟨hab ▸ ha, List.nil_subset _⟩)
    refine ⟨hnew, hother, hj.onColumn, ih ?_ hbound.2 ?_ ?_ hwired⟩
    · intro b hb
      rcases List.mem_append.1 hb with hb | hb
      · exact htables b hb
      · exact List.mem_singleton.1 hb ▸ hj.own
    · rw [List.map_append]
      refine List.cons_subset.2 ⟨List.mem_append_right _ (List.mem_singleton_self _), ?_⟩
      exact List.subset_append_of_subset_left _ hsub
    · simpa [JoinClause.binding] using hdistinct

/-! ## Joins of paths -/

section Paths

variable {root : String} {names : List String} {current : Table} {before : Option String}
  {hops : List Hop} {columns : List String}

/-- The binding that a path begins with and those of its joins. -/
def pathTables (parent table : String) (kind : JoinKind) (hops : List Hop) : FromList :=
  (parent, table) :: (RelationPath.joinsFrom kind parent hops).map JoinClause.binding

/-- The bindings of the steps after the first are among those of all steps. -/
theorem pathTables_cons_subset (parent table : String) (kind : JoinKind) (hop : Hop)
    (hops : List Hop) :
    pathTables hop.aliasName hop.table kind hops ⊆ pathTables parent table kind (hop :: hops) :=
  List.subset_cons_self _ _

/-- The joins of a path are wired to its tables. -/
theorem wired_joinsFrom (hc : c.Coherent) (hcurrent : c.table? current.name = some current)
    (h : c.hopsFrom root current before names = .ok (hops, columns)) (kind : JoinKind)
    (parent : String) : ∀ j ∈ RelationPath.joinsFrom kind parent hops,
      c.Wired (· ∈ pathTables parent current.name kind hops) j := by
  induction names generalizing current before hops parent with
  | nil =>
    cases h
    exact fun j hj => absurd hj List.not_mem_nil
  | cons name names ih =>
    obtain ⟨edge, target, rest, hedge, htarget, -, hrest, rfl⟩ := hopsFrom_cons.1 h
    have hname : target.name = edge.target := hc.table_name htarget
    intro j hj
    rcases List.mem_cons.1 hj with rfl | hj
    · -- The edge joins the two tables on columns that they list.
      obtain ⟨source, hsource, hfrom⟩ := hc.edge_source hedge
      obtain ⟨goal, hgoal, hto⟩ := hc.edge_target hedge
      obtain ⟨hbegin, -⟩ := Prod.mk.inj (hc.edge_key hedge)
      cases Option.some.inj (hsource.symm.trans (hbegin ▸ hcurrent))
      exact {
        own := List.mem_cons_of_mem _ List.mem_cons_self
        onColumn := ⟨edge.target, goal, by simp [JoinClause.binding, hname], hgoal, hto⟩
        other := ⟨(parent, current.name), List.mem_cons_self, current.name, current,
          List.mem_singleton_self _, hcurrent, hfrom⟩ }
    · refine (ih (hname.symm ▸ htarget) hrest (hopAlias before edge.name) j hj).mono ?_
      exact fun b hb => pathTables_cons_subset parent current.name kind _ rest hb

/-- The table that a path leads to lists the columns at its end. -/
theorem lists_terminal (hc : c.Coherent) (hcurrent : c.table? current.name = some current)
    (h : c.hopsFrom root current before names = .ok (hops, columns)) (kind : JoinKind)
    (parent : String) {column : String} (hcol : column ∈ columns) :
    c.Lists (pathTables parent current.name kind hops) ⟨lastAlias parent hops, column⟩ := by
  induction names generalizing current before hops parent with
  | nil =>
    cases h
    exact ⟨current.name, current, List.mem_cons_self, hcurrent, hcol⟩
  | cons name names ih =>
    obtain ⟨edge, target, rest, hedge, htarget, -, hrest, rfl⟩ := hopsFrom_cons.1 h
    have hname : target.name = edge.target := hc.table_name htarget
    refine (ih (hname.symm ▸ htarget) hrest (hopAlias before edge.name)).mono ?_
    exact fun b hb => pathTables_cons_subset parent current.name kind _ rest hb

/-- The table of each step of a path lists the key that the step knows. -/
theorem lists_key (hc : c.Coherent)
    (h : c.hopsFrom root current before names = .ok (hops, columns)) (kind : JoinKind)
    (parent : String) {hop : Hop} (hhop : hop ∈ hops) :
    c.Lists (pathTables parent current.name kind hops) ⟨hop.aliasName, hop.key⟩ := by
  induction names generalizing current before hops parent with
  | nil =>
    cases h
    exact absurd hhop List.not_mem_nil
  | cons name names ih =>
    obtain ⟨edge, target, rest, hedge, htarget, -, hrest, rfl⟩ := hopsFrom_cons.1 h
    have hname : target.name = edge.target := hc.table_name htarget
    rcases List.mem_cons.1 hhop with rfl | hhop
    · exact ⟨target.name, target, List.mem_cons_of_mem _ List.mem_cons_self, hname.symm ▸ htarget,
        hc.key_listed htarget⟩
    · refine (ih hrest (hopAlias before edge.name) hhop).mono ?_
      exact fun b hb => pathTables_cons_subset parent current.name kind _ rest hb

end Paths

end Catalog

end RowScope
