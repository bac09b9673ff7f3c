import RowScope.Proofs.Relation.Additions
import RowScope.Proofs.Relation.ReadPath

/-!
# Consistent catalogs

A run of additions makes a coherent catalog, and its paths inherit what holds of its edges
(`Catalog.additions_consistent`). A path is found along names that walk from the root table
(`Catalog.Walks`) if the aliases that they make are short enough, and nothing else can go wrong
(`Catalog.exists_path_iff`). Its steps are those of the edges of these names and chain from table to
table (`Catalog.StepsAlong`), each under the names up to it with points between them
(`hopAliases_eq`), and it may be read through at the columns of the table that it ends at
(`Catalog.terminal_of_path`).
-/

namespace RowScope

/-! ## Aliases -/

/-- The aliases of the steps after a step `before` are made of its alias and the names up to each
step. -/
theorem hopAliases_some (before : String) (names : List String) :
    hopAliases (some before) names =
      (List.range names.length).map fun i => ".".intercalate (before :: names.take (i + 1)) := by
  induction names generalizing before with
  | nil => rfl
  | cons name names ih =>
    have hfirst : Catalog.hopAlias (some before) name = ".".intercalate [before, name] := by
      rw [String.intercalate_cons_cons, String.intercalate_singleton]
      rfl
    -- A text with points in it may stand at the front as well as its parts.
    have hlater : ∀ later : List String,
        ".".intercalate (Catalog.hopAlias (some before) name :: later) =
          ".".intercalate (before :: name :: later) := by
      intro later
      rw [Catalog.hopAlias, String.intercalate_cons_append, String.intercalate_cons_cons]
    rw [hopAliases, ih, List.length_cons, List.range_succ_eq_map, List.map_cons, List.map_map]
    simp only [hlater]
    exact congrArg (· :: _) hfirst

/-- The alias of each step is made of the names up to it, with points between them. -/
theorem hopAliases_eq (names : List String) :
    hopAliases none names =
      (List.range names.length).map fun i => ".".intercalate (names.take (i + 1)) := by
  cases names with
  | nil => rfl
  | cons name names =>
    rw [hopAliases, List.length_cons, List.range_succ_eq_map, List.map_cons, List.map_map]
    exact congrArg₂ List.cons String.intercalate_singleton.symm (hopAliases_some name names)

/-- No alias along some names is too long if no first part of the names makes a text that is. -/
theorem forall_hopAliases_iff (names : List String) (limit : Nat) :
    (∀ a ∈ hopAliases none names, a.utf8ByteSize ≤ limit) ↔
      ∀ front, front <+: names → (".".intercalate front).utf8ByteSize ≤ limit := by
  rw [hopAliases_eq, List.forall_mem_map]
  constructor
  · intro h front hfront
    cases front with
    | nil => exact Nat.zero_le limit
    | cons name front =>
      have hlength := hfront.length_le
      have hshort := h front.length (List.mem_range.2 hlength)
      rwa [← List.length_cons, ← List.prefix_iff_eq_take.1 hfront] at hshort
  · exact fun h i _ => h _ (List.take_prefix (i + 1) names)

namespace Catalog

variable {c : Catalog} {root : String} {start current last : Table} {name : String}
  {names before : List String}

/-! ## Names that walk -/

/-- Each of some names is that of an edge of the table that the names before it lead to. -/
def Walks (c : Catalog) (start : Table) (names : List String) : Prop :=
  ∀ before name, before ++ [name] <+: names →
    ∃ reached edge, c.Leads start before.reverse reached ∧
      c.edges.get? (reached.name, name) = some edge

/-- The last name leads on from the table that the others lead to. -/
theorem leads_cons : c.Leads start (name :: before) last ↔
    ∃ current edge, c.Leads start before current ∧ c.edges.get? (current.name, name) = some edge ∧
      c.table? edge.target = some last := by
  constructor
  · rintro (_ | ⟨hbefore, hedge, htarget⟩)
    exact ⟨_, _, hbefore, hedge, htarget⟩
  · rintro ⟨current, edge, hbefore, hedge, htarget⟩
    exact .step hbefore hedge htarget

/-- The names after the first one lead on from the table that the first one leads to. -/
theorem leads_concat : c.Leads start (before ++ [name]) last ↔
    ∃ edge target, c.edges.get? (start.name, name) = some edge ∧
      c.table? edge.target = some target ∧ c.Leads target before last := by
  induction before generalizing last with
  | nil =>
    rw [List.nil_append, leads_cons]
    constructor
    · rintro ⟨current, edge, ⟨⟩, hedge, htarget⟩
      exact ⟨edge, last, hedge, htarget, .here⟩
    · rintro ⟨edge, target, hedge, htarget, ⟨⟩⟩
      exact ⟨start, edge, .here, hedge, htarget⟩
  | cons next before ih =>
    rw [List.cons_append, leads_cons]
    constructor
    · rintro ⟨current, later, hcurrent, hlater, hlast⟩
      obtain ⟨edge, target, hedge, htarget, hleads⟩ := ih.1 hcurrent
      exact ⟨edge, target, hedge, htarget, .step hleads hlater hlast⟩
    · rintro ⟨edge, target, hedge, htarget, hleads⟩
      obtain ⟨current, later, hcurrent, hlater, hlast⟩ := leads_cons.1 hleads
      exact ⟨current, later, ih.2 ⟨edge, target, hedge, htarget, hcurrent⟩, hlater, hlast⟩

/-- Names walk if the first one is that of an edge and the others walk from the table that it leads
to, which a coherent catalog has. -/
theorem walks_cons (hc : c.Coherent) : c.Walks start (name :: names) ↔
    ∃ edge target, c.edges.get? (start.name, name) = some edge ∧
      c.table? edge.target = some target ∧ c.Walks target names := by
  constructor
  · intro h
    obtain ⟨_, edge, ⟨⟩, hedge⟩ := h [] name (List.cons_prefix_cons.2 ⟨rfl, List.nil_prefix⟩)
    obtain ⟨target, htarget, -⟩ := hc.edge_target hedge
    refine ⟨edge, target, hedge, htarget, fun before next hnext => ?_⟩
    obtain ⟨reached, later, hreached, hlater⟩ :=
      h (name :: before) next (List.cons_prefix_cons.2 ⟨rfl, hnext⟩)
    rw [List.reverse_cons] at hreached
    obtain ⟨edge', target', hedge', htarget', hleads⟩ := leads_concat.1 hreached
    cases hedge.symm.trans hedge'
    cases htarget.symm.trans htarget'
    exact ⟨reached, later, hleads, hlater⟩
  · rintro ⟨edge, target, hedge, htarget, hwalks⟩ before next hnext
    cases before with
    | nil =>
      obtain ⟨rfl, -⟩ := List.cons_prefix_cons.1 hnext
      exact ⟨start, edge, .here, hedge⟩
    | cons first before =>
      obtain ⟨rfl, hrest⟩ := List.cons_prefix_cons.1 hnext
      obtain ⟨reached, later, hleads, hlater⟩ := hwalks before next hrest
      refine ⟨reached, later, ?_, hlater⟩
      rw [List.reverse_cons]
      exact leads_concat.2 ⟨edge, target, hedge, htarget, hleads⟩

/-- Steps are found along names that walk if no alias is too long. -/
theorem exists_hopsFrom_iff (hc : c.Coherent) (root : String) {before : Option String} :
    (∃ found, c.hopsFrom root current before names = .ok found) ↔
      c.Walks current names ∧ ∀ a ∈ hopAliases before names, a.utf8ByteSize ≤ aliasLimit := by
  induction names generalizing current before with
  | nil =>
    refine ⟨fun _ => ⟨fun before name h => ?_, by simp [hopAliases]⟩, fun _ => ⟨_, rfl⟩⟩
    exact absurd (List.prefix_nil.1 h) (by simp)
  | cons name names ih =>
    rw [walks_cons hc, hopAliases, List.forall_mem_cons]
    constructor
    · rintro ⟨⟨hops, columns⟩, h⟩
      obtain ⟨edge, target, rest, hedge, htarget, hsize, hrest, -⟩ := hopsFrom_cons.1 h
      obtain ⟨-, rfl⟩ := Prod.mk.inj (hc.edge_key hedge)
      obtain ⟨hwalks, hsizes⟩ := ih.1 ⟨_, hrest⟩
      exact ⟨⟨edge, target, hedge, htarget, hwalks⟩, hsize, hsizes⟩
    · rintro ⟨⟨edge, target, hedge, htarget, hwalks⟩, hsize, hsizes⟩
      obtain ⟨-, rfl⟩ := Prod.mk.inj (hc.edge_key hedge)
      obtain ⟨⟨rest, columns⟩, hrest⟩ := ih.2 ⟨hwalks, hsizes⟩
      exact ⟨_, hopsFrom_cons.2 ⟨edge, target, rest, hedge, htarget, hsize, hrest, rfl⟩⟩

/-- A path is found from a known table along names that walk if no first part of the names makes a
text that is too long for an alias. -/
theorem exists_path_iff (hc : c.Coherent) : (∃ p, c.path root names = .ok p) ↔
    ∃ start, c.table? root = some start ∧ c.Walks start names ∧
      ∀ front, front <+: names → (".".intercalate front).utf8ByteSize ≤ aliasLimit := by
  simp only [← forall_hopAliases_iff, ← exists_hopsFrom_iff hc root]
  constructor
  · rintro ⟨p, h⟩
    obtain ⟨start, hstart, hhops, -, -⟩ := path_eq_ok h
    exact ⟨start, hstart, _, hhops⟩
  · rintro ⟨start, hstart, ⟨hops, columns⟩, hhops⟩
    exact ⟨_, path_of_hopsFrom hstart hhops⟩

/-! ## Steps that chain -/

/-- A step is that of an edge of a table: it joins a column that the table lists with one that its
own table lists beside its key. -/
structure StepAlong (c : Catalog) (table name : String) (hop : Hop) : Prop where
  /-- The step has the columns of the edge and leads where the edge does. -/
  edge : ∃ edge, c.edges.get? (table, name) = some edge ∧ hop.table = edge.target ∧
    hop.cardinality = edge.cardinality ∧ hop.parentColumn = edge.fromColumn ∧
    hop.onColumn = edge.toColumn
  /-- The table before lists the column that the step begins at. -/
  parent : ∃ parent, c.table? table = some parent ∧ hop.parentColumn ∈ parent.columns
  /-- The table of the step lists its key and the column that the step leads to. -/
  own : ∃ target, c.table? hop.table = some target ∧ hop.key = target.key ∧
    hop.key ∈ target.columns ∧ hop.onColumn ∈ target.columns

/-- Steps are those of the edges of some names, each from the table that the one before it leads
to. -/
inductive StepsAlong (c : Catalog) : String → List String → List Hop → Prop where
  | nil {table : String} : StepsAlong c table [] []
  | cons {table name : String} {names : List String} {hop : Hop} {hops : List Hop} :
    c.StepAlong table name hop → StepsAlong c hop.table names hops →
    StepsAlong c table (name :: names) (hop :: hops)

/-- The steps that are found along some names are those of their edges. -/
theorem stepsAlong_of_hopsFrom (hc : c.Coherent) (hcurrent : c.table? current.name = some current)
    {before : Option String} {hops : List Hop} {columns : List String}
    (h : c.hopsFrom root current before names = .ok (hops, columns)) :
    c.StepsAlong current.name names hops := by
  induction names generalizing current before hops with
  | nil =>
    cases h
    exact .nil
  | cons name names ih =>
    obtain ⟨edge, target, rest, hedge, htarget, -, hrest, rfl⟩ := hopsFrom_cons.1 h
    have hname : target.name = edge.target := hc.table_name htarget
    have hsource : edge.source = current.name := (Prod.mk.inj (hc.edge_key hedge)).1.symm
    obtain ⟨goal, hgoal, hto⟩ := hc.edge_target hedge
    cases hgoal.symm.trans htarget
    refine .cons ⟨⟨edge, hedge, hname, rfl, rfl, rfl⟩, hsource ▸ hc.edge_source hedge, target, ?_,
      rfl, hc.key_listed htarget, hto⟩ (ih (hname ▸ htarget) hrest)
    exact hname ▸ htarget

/-! ## Paths of consistent catalogs -/

/-- What holds of a path from a root table along some names. -/
structure Resolves (c : Catalog) (root : String) (names : List String) (p : RelationPath) :
    Prop where
  /-- It begins at the root table, whose key it knows. -/
  begins : p.root = root ∧ ∃ start, c.table? root = some start ∧ p.rootKey = start.key
  /-- Its steps are those of the edges of the names, and chain from the root table on. -/
  steps : c.StepsAlong root names p.hops
  /-- Each step goes by the names up to it, with points between them. -/
  aliases : ∀ i hop, p.hops[i]? = some hop → hop.aliasName = ".".intercalate (names.take (i + 1))
  /-- It may be read through at the columns of the table that it ends at. -/
  terminal : ∃ last, c.table? p.terminalTable = some last ∧
    ∀ columns, p.require columns = .ok p ↔ ∀ column ∈ columns, column ∈ last.columns

/-- A path that is found is as it should be. -/
theorem resolves_of_path (hc : c.Coherent) {p : RelationPath} (h : c.path root names = .ok p) :
    c.Resolves root names p := by
  obtain ⟨start, hstart, hhops, hroot, hkey⟩ := path_eq_ok h
  have hname : start.name = root := hc.table_name hstart
  refine ⟨⟨hroot.trans hname, start, hstart, hkey⟩, ?_, fun i hop hhop => ?_, ?_⟩
  · exact hname ▸ stepsAlong_of_hopsFrom hc (hname ▸ hstart) hhops
  · have haliases := congrArg (·[i]?) ((aliases_hopsFrom hc hhops).trans (hopAliases_eq names))
    simp only [List.getElem?_map, hhop, Option.map_some] at haliases
    obtain ⟨j, hj, he⟩ := Option.map_eq_some_iff.1 haliases.symm
    obtain ⟨hi, rfl⟩ := List.getElem?_eq_some_iff.1 hj
    rw [← he, List.getElem_range]
  · obtain ⟨last, hlast, -, hcolumns⟩ := terminal_of_path hc h
    refine ⟨last, hlast, fun columns => ?_⟩
    rw [RelationPath.require_eq_ok, hcolumns]
    simp

/-- A run of additions, of which some may be refused, makes a coherent catalog: its tables list
their keys, and its edges join known tables on columns that these list. A path is found in it from a
root table if the table is known, each name is that of an edge of the table reached so far, and no
first part of the names makes a text of more than 63 bytes. Its steps are then those of these edges,
under the names up to each, and it may be read through at the columns of the table at its end. -/
theorem additions_consistent (additions : List Addition) :
    (ofAdditions additions).Coherent ∧
      ∀ root names,
        ((∃ p, (ofAdditions additions).path root names = .ok p) ↔
          ∃ start, (ofAdditions additions).table? root = some start ∧
            (ofAdditions additions).Walks start names ∧
            ∀ front, front <+: names → (".".intercalate front).utf8ByteSize ≤ 63) ∧
        ∀ p, (ofAdditions additions).path root names = .ok p →
          (ofAdditions additions).Resolves root names p := by
  have hc : (ofAdditions additions).Coherent := (built_iff.2 ⟨additions, rfl⟩).coherent
  exact ⟨hc, fun root names => ⟨exists_path_iff hc, fun p => resolves_of_path hc⟩⟩

end Catalog

/-- Reports and their authors. The first table of users does not list its key, and the second edge
has the name of the first. -/
def authorAdditions : List Addition :=
  [.table (keyedTable "ActivityReports" ["id", "userId"]), .table (keyedTable "Users" ["name"]),
    .table (keyedTable "Users" ["id", "name"]),
    .edge (belongsTo "ActivityReports" "author" "userId" "Users"),
    .edge (hasMany "ActivityReports" "author" "Users" "name")]

/-- The edge to the author is followed, and the name of the author may be read at its end but not
the role. -/
theorem Catalog.author_consistent :
    ∃ p, (ofAdditions authorAdditions).path "ActivityReports" ["author"] = .ok p ∧
      (ofAdditions authorAdditions).Resolves "ActivityReports" ["author"] p ∧
      p.require ["name"] = .ok p ∧ p.require ["name", "role"] ≠ .ok p := by
  have hpath : (ofAdditions authorAdditions).path "ActivityReports" ["author"] =
      .ok ⟨"ActivityReports", "id", [⟨"Users", "id", "author", "id", "userId", .manyToOne⟩],
        ["id", "name"]⟩ := by decide +kernel
  have hresolves := ((additions_consistent authorAdditions).2 _ _).2 _ hpath
  exact ⟨_, hpath, hresolves, by decide +kernel, by decide +kernel⟩

end RowScope
