import RowScope.Proofs.Association.Merge
import RowScope.Proofs.Relation.Catalog

/-!
# The steps of a path

The alias of a step is made of the names up to it. As long as no name has a point in it, the alias
gives the names back (`stepAlias_injective`), and the names lead to one table only
(`Catalog.Leads.unique`), so two paths from one root table that share an alias share the join under
it (`Catalog.JoinAt.unique`). The joins of a path form a chain: each refers to the alias before it
(`joinsBound_joinsFrom`), and no alias comes twice (`hopAliases_nodup`).
-/

namespace RowScope

/-! ## Aliases -/

/-- The alias of the step that some names lead to, the last name at the front. -/
def stepAlias : List String → Option String
  | [] => none
  | name :: before => some (Catalog.hopAlias (stepAlias before) name)

/-- No name has a point in it. -/
def DotFree (names : List String) : Prop := ∀ name ∈ names, '.' ∉ name.toList

instance (names : List String) : Decidable (DotFree names) :=
  inferInstanceAs (Decidable (∀ name ∈ names, '.' ∉ name.toList))

/-- What stands before and after the last point of a text is determined by it. -/
theorem split_last_dot {before others name other : List Char} (hn : '.' ∉ name) (ho : '.' ∉ other)
    (h : before ++ '.' :: name = others ++ '.' :: other) : before = others ∧ name = other := by
  rcases List.append_eq_append_iff.1 h with ⟨middle, hb, ha⟩ | ⟨middle, hb, ha⟩
  · cases middle with
    | nil => exact ⟨by simpa using hb.symm, by simpa using ha⟩
    | cons c middle =>
      -- The second point would stand in the first name.
      have hmem : '.' ∈ name := by
        rw [(List.cons.inj ha).2]
        simp
      exact absurd hmem hn
  · cases middle with
    | nil => exact ⟨by simpa using hb, by simpa using ha.symm⟩
    | cons c middle =>
      have hmem : '.' ∈ other := by
        rw [(List.cons.inj ha).2]
        simp
      exact absurd hmem ho

/-- An alias gives back the last name and the alias before it. -/
theorem hopAlias_injective {before others : Option String} {name other : String}
    (hn : '.' ∉ name.toList) (ho : '.' ∉ other.toList)
    (h : Catalog.hopAlias before name = Catalog.hopAlias others other) :
    before = others ∧ name = other := by
  have chars := congrArg String.toList h
  rcases before with _ | before <;> rcases others with _ | others
  · exact ⟨rfl, h⟩
  · -- The text of a step after another has a point in it.
    simp only [Catalog.hopAlias, String.toList_append] at chars
    exact absurd (by rw [chars]; simp) hn
  · simp only [Catalog.hopAlias, String.toList_append] at chars
    exact absurd (by rw [← chars]; simp) ho
  · simp only [Catalog.hopAlias, String.toList_append, List.append_assoc] at chars
    obtain ⟨hb, hnames⟩ := split_last_dot hn ho chars
    exact ⟨congrArg some (String.toList_injective hb), String.toList_injective hnames⟩

/-- Names without points are determined by the alias that they make. -/
theorem stepAlias_injective {names others : List String} (hn : DotFree names) (ho : DotFree others)
    (h : stepAlias names = stepAlias others) : names = others := by
  induction names generalizing others with
  | nil =>
    cases others with
    | nil => rfl
    | cons other others => cases h
  | cons name names ih =>
    cases others with
    | nil => cases h
    | cons other others =>
      obtain ⟨hnames, hothers⟩ := List.forall_mem_cons.1 hn, List.forall_mem_cons.1 ho
      obtain ⟨before, rfl⟩ := hopAlias_injective hnames.1 hothers.1 (Option.some.inj h)
      rw [ih hnames.2 hothers.2 before]

/-- The aliases of the steps along some names, after a step of the alias `before`. -/
def hopAliases : Option String → List String → List String
  | _, [] => []
  | before, name :: names =>
    Catalog.hopAlias before name :: hopAliases (some (Catalog.hopAlias before name)) names

/-- An alias is longer than that of any step before it. -/
theorem length_lt_of_mem_hopAliases {before a : String} {names : List String}
    (h : a ∈ hopAliases (some before) names) : before.length < a.length := by
  induction names generalizing before with
  | nil => exact absurd h List.not_mem_nil
  | cons name names ih =>
    have hstep : before.length < (Catalog.hopAlias (some before) name).length := by
      have hdot : ".".length = 1 := rfl
      rw [Catalog.hopAlias, String.length_append, String.length_append, hdot]
      omega
    rcases List.mem_cons.1 h with rfl | h
    · exact hstep
    · exact Nat.lt_trans hstep (ih h)

/-- No alias comes twice along some names. -/
theorem hopAliases_nodup (before : Option String) (names : List String) :
    (hopAliases before names).Nodup := by
  induction names generalizing before with
  | nil => exact List.nodup_nil
  | cons name names ih =>
    refine List.nodup_cons.2 ⟨fun h => ?_, ih _⟩
    exact Nat.lt_irrefl _ (length_lt_of_mem_hopAliases h)

/-- The alias of a step is a name or has a point in it. -/
theorem mem_or_dot_of_mem_hopAliases {a : String} {names : List String}
    (h : a ∈ hopAliases none names) : a ∈ names ∨ '.' ∈ a.toList := by
  -- Every step after the first goes by an alias with a point.
  have dotted : ∀ (names : List String) (before : String), a ∈ hopAliases (some before) names →
      '.' ∈ a.toList := by
    intro names
    induction names with
    | nil => exact fun _ h => absurd h List.not_mem_nil
    | cons name names ih =>
      intro before h
      rcases List.mem_cons.1 h with rfl | h
      · simp [Catalog.hopAlias]
      · exact ih _ h
  cases names with
  | nil => exact absurd h List.not_mem_nil
  | cons name names =>
    rcases List.mem_cons.1 h with rfl | h
    · exact .inl List.mem_cons_self
    · exact .inr (dotted names _ h)

/-! ## Steps in a catalog -/

namespace Catalog

variable {c : Catalog} {start current table : Table} {names before : List String} {root : String}

/-- The table that some names lead to, the last name at the front. -/
inductive Leads (c : Catalog) (start : Table) : List String → Table → Prop where
  | here : Leads c start [] start
  | step {before : List String} {current target : Table} {name : String} {edge : Edge} :
    Leads c start before current → c.edges.get? (current.name, name) = some edge →
    c.table? edge.target = some target → Leads c start (name :: before) target

/-- Names lead to one table only. -/
theorem Leads.unique {other : Table} (h : c.Leads start names table)
    (h' : c.Leads start names other) : table = other := by
  induction h generalizing other with
  | here =>
    cases h'
    rfl
  | step _ hedge htarget ih =>
    cases h' with
    | step hbefore hedge' htarget' =>
      cases ih hbefore
      cases Option.some.inj (hedge.symm.trans hedge')
      exact Option.some.inj (htarget.symm.trans htarget')

/-- A path is found if its first step is, under an alias that is not too long, and the steps after
it. -/
theorem hopsFrom_cons {before : Option String} {name : String} {hops : List Hop}
    {columns : List String} :
    c.hopsFrom root current before (name :: names) = .ok (hops, columns) ↔
      ∃ edge target rest, c.edges.get? (current.name, name) = some edge ∧
        c.table? edge.target = some target ∧
        (hopAlias before edge.name).utf8ByteSize ≤ aliasLimit ∧
        c.hopsFrom root target (some (hopAlias before edge.name)) names = .ok (rest, columns) ∧
        hops = ⟨target.name, target.key, hopAlias before edge.name, edge.toColumn,
          edge.fromColumn, edge.cardinality⟩ :: rest := by
  rw [hopsFrom]
  cases hedge : c.edges.get? (current.name, name) with
  | none => simp
  | some edge =>
    simp only [Traversal.bind_eq_ok, requireTable_eq_ok, Option.some.injEq]
    constructor
    · rintro ⟨target, htarget, h⟩
      split at h
      · cases h
      · next hsize =>
        obtain ⟨⟨rest, _⟩, hrest, h⟩ := Traversal.bind_eq_ok.1 h
        cases h
        exact ⟨edge, target, rest, rfl, htarget, Nat.le_of_not_lt hsize, hrest, rfl⟩
    · rintro ⟨_, target, rest, rfl, htarget, hsize, hrest, rfl⟩
      refine ⟨target, htarget, ?_⟩
      rw [if_neg (Nat.not_lt.2 hsize), hrest]
      rfl

/-- The steps of a path go by the aliases that its names make. -/
theorem aliases_hopsFrom (hc : c.Coherent) {before : Option String} {hops : List Hop}
    {columns : List String} (h : c.hopsFrom root current before names = .ok (hops, columns)) :
    hops.map Hop.aliasName = hopAliases before names := by
  induction names generalizing current before hops with
  | nil =>
    cases h
    rfl
  | cons name names ih =>
    obtain ⟨edge, target, rest, hedge, -, -, hrest, rfl⟩ := hopsFrom_cons.1 h
    obtain ⟨-, hname⟩ := Prod.mk.inj (hc.edge_key hedge)
    rw [← hname] at hrest
    rw [List.map_cons, ih hrest, hopAliases, ← hname]

/-- Each step of a path follows an edge of one of its names, and each name is that of a step. -/
theorem edges_of_hopsFrom (hc : c.Coherent) {before : Option String} {hops : List Hop}
    {columns : List String} (h : c.hopsFrom root current before names = .ok (hops, columns)) :
    (∀ hop ∈ hops, ∃ key edge, c.edges.get? key = some edge ∧ edge.name ∈ names ∧
      hop.table = edge.target) ∧
    ∀ name ∈ names, ∃ hop ∈ hops, ∃ key edge, c.edges.get? key = some edge ∧ edge.name = name ∧
      hop.cardinality = edge.cardinality := by
  induction names generalizing current before hops with
  | nil =>
    cases h
    exact ⟨fun _ hmem => absurd hmem List.not_mem_nil, fun _ hmem => absurd hmem List.not_mem_nil⟩
  | cons name names ih =>
    obtain ⟨edge, target, rest, hedge, htarget, -, hrest, rfl⟩ := hopsFrom_cons.1 h
    obtain ⟨-, hname⟩ := Prod.mk.inj (hc.edge_key hedge)
    obtain ⟨hhops, hnames⟩ := ih hrest
    constructor
    · intro hop hhop
      rcases List.mem_cons.1 hhop with rfl | hhop
      · exact ⟨_, edge, hedge, hname ▸ List.mem_cons_self, hc.table_name htarget⟩
      · obtain ⟨key, next, hnext, hmem, htable⟩ := hhops hop hhop
        exact ⟨key, next, hnext, List.mem_cons_of_mem name hmem, htable⟩
    · intro other hother
      rcases List.mem_cons.1 hother with rfl | hother
      · exact ⟨_, List.mem_cons_self, _, edge, hedge, hname.symm, rfl⟩
      · obtain ⟨hop, hhop, key, next, hnext, he, hcard⟩ := hnames other hother
        exact ⟨hop, List.mem_cons_of_mem _ hhop, key, next, hnext, he, hcard⟩

/-- A path is found from a table of the catalog. -/
theorem path_eq_ok {p : RelationPath} (h : c.path root names = .ok p) :
    ∃ table, c.table? root = some table ∧
      c.hopsFrom root table none names = .ok (p.hops, p.terminalColumns) ∧
      p.root = table.name ∧ p.rootKey = table.key := by
  unfold path at h
  obtain ⟨table, htable, h⟩ := Traversal.bind_eq_ok.1 h
  obtain ⟨⟨hops, columns⟩, hhops, h⟩ := Traversal.bind_eq_ok.1 h
  cases h
  exact ⟨table, requireTable_eq_ok.1 htable, hhops, rfl, rfl⟩

/-- A path along names is found if its root table and its steps are. -/
theorem path_of_hopsFrom {hops : List Hop} {columns : List String}
    (hstart : c.table? root = some start)
    (hhops : c.hopsFrom root start none names = .ok (hops, columns)) :
    c.path root names = .ok ⟨start.name, start.key, hops, columns⟩ :=
  Traversal.bind_eq_ok.2 ⟨start, requireTable_eq_ok.2 hstart,
    Traversal.bind_eq_ok.2 ⟨(hops, columns), hhops, rfl⟩⟩

/-- The last of some steps leads to a table of the catalog, whose key it knows and whose columns are
those at the end. Without steps that is the table where they begin. -/
theorem last_of_hopsFrom (hc : c.Coherent) (hcurrent : c.table? current.name = some current)
    {before : Option String} {hops : List Hop} {columns : List String}
    (h : c.hopsFrom root current before names = .ok (hops, columns)) :
    ∃ last, c.table? ((hops.getLast?.map Hop.table).getD current.name) = some last ∧
      (hops.getLast?.map Hop.key).getD current.key = last.key ∧ columns = last.columns := by
  induction names generalizing current before hops with
  | nil =>
    cases h
    exact ⟨current, hcurrent, rfl, rfl⟩
  | cons name names ih =>
    obtain ⟨edge, target, rest, -, htarget, -, hrest, rfl⟩ := hopsFrom_cons.1 h
    have hname : target.name = edge.target := hc.table_name htarget
    obtain ⟨last, hlast, hkey, hcolumns⟩ := ih (hname ▸ htarget) hrest
    refine ⟨last, ?_, ?_, hcolumns⟩
    · rw [← hlast, List.getLast?_cons]
      cases rest.getLast? <;> rfl
    · rw [← hkey, List.getLast?_cons]
      cases rest.getLast? <;> rfl

/-- The terminal table of a path is in the catalog, its key is the terminal key, and its columns are
those at the end of the path. -/
theorem terminal_of_path (hc : c.Coherent) {p : RelationPath} (h : c.path root names = .ok p) :
    ∃ last, c.table? p.terminalTable = some last ∧ p.terminalKey = ⟨p.terminalAlias, last.key⟩ ∧
      p.terminalColumns = last.columns := by
  obtain ⟨start, hstart, hhops, hroot, hrootKey⟩ := path_eq_ok h
  have hname : start.name = root := hc.table_name hstart
  obtain ⟨last, hlast, hkey, hcolumns⟩ := last_of_hopsFrom hc (hname ▸ hstart) hhops
  rw [← hroot] at hlast
  rw [← hrootKey] at hkey
  refine ⟨last, ?_, ?_, hcolumns⟩
  · rw [← hlast]
    unfold RelationPath.terminalTable
    cases p.hops.getLast? <;> rfl
  · rw [← hkey]
    unfold RelationPath.terminalKey
    cases p.hops.getLast? <;> rfl

/-- The terminal table of a path is in the catalog, and its key is the terminal key. -/
theorem exists_terminal (hc : c.Coherent) {p : RelationPath} (h : c.path root names = .ok p) :
    ∃ target, c.table? p.terminalTable = some target ∧
      p.terminalKey = ⟨p.terminalAlias, target.key⟩ := by
  obtain ⟨target, htarget, hkey, -⟩ := terminal_of_path hc h
  exact ⟨target, htarget, hkey⟩

/-! ## Joins of steps -/

/-- The join of a step along an edge, the last of some names from the table `start`, which goes by
the alias `root`. -/
inductive JoinAt (c : Catalog) (kind : JoinKind) (start : Table) (root : String) :
    List String → Edge → JoinClause → Prop where
  | mk {before : List String} {current target : Table} {name : String} {edge : Edge} :
    c.Leads start before current → c.edges.get? (current.name, name) = some edge →
    c.table? edge.target = some target →
    JoinAt c kind start root (name :: before) edge ⟨kind, target.name,
      hopAlias (stepAlias before) name, edge.toColumn,
      ⟨(stepAlias before).getD root, edge.fromColumn⟩⟩

variable {kind : JoinKind} {edge other : Edge} {j k : JoinClause}

/-- Names have one join. -/
theorem JoinAt.unique (hj : c.JoinAt kind start root names edge j)
    (hk : c.JoinAt kind start root names other k) : j = k := by
  cases hj with
  | mk hl hedge htarget =>
    cases hk with
    | mk hl' hedge' htarget' =>
      cases hl.unique hl'
      cases Option.some.inj (hedge.symm.trans hedge')
      cases Option.some.inj (htarget.symm.trans htarget')
      rfl

/-- The join of a step goes by the alias that its names make. -/
theorem JoinAt.stepAlias_eq (h : c.JoinAt kind start root names edge j) :
    stepAlias names = some j.aliasName := by
  cases h
  rfl

/-- The joins of a path are those of its steps, each along an edge of the cardinality of one of
them. -/
theorem joinAt_of_mem (hc : c.Coherent) {origin : String} {hops : List Hop} {columns : List String}
    (hl : c.Leads start before current)
    (h : c.hopsFrom origin current (stepAlias before) names = .ok (hops, columns))
    (hb : DotFree before) (hn : DotFree names)
    (hj : j ∈ RelationPath.joinsFrom kind ((stepAlias before).getD root) hops) :
    ∃ steps edge, DotFree steps ∧ c.JoinAt kind start root steps edge j ∧
      ∃ hop ∈ hops, hop.cardinality = edge.cardinality := by
  induction names generalizing current before hops with
  | nil =>
    cases h
    exact absurd hj List.not_mem_nil
  | cons name names ih =>
    obtain ⟨edge, target, rest, hedge, htarget, -, hrest, rfl⟩ := hopsFrom_cons.1 h
    obtain ⟨-, hname⟩ := Prod.mk.inj (hc.edge_key hedge)
    -- The steps after the first go from its table and from its alias.
    rw [← hname] at hrest hj
    obtain ⟨hdot, hn⟩ := List.forall_mem_cons.1 hn
    have hb' : DotFree (name :: before) := List.forall_mem_cons.2 ⟨hdot, hb⟩
    rcases List.mem_cons.1 hj with rfl | hj
    · exact ⟨name :: before, edge, hb', .mk hl hedge htarget, _, List.mem_cons_self, rfl⟩
    · obtain ⟨steps, later, hdots, hat, hop, hhop, hcard⟩ :=
        ih (hl.step hedge htarget) hrest hb' hn hj
      exact ⟨steps, later, hdots, hat, hop, List.mem_cons_of_mem _ hhop, hcard⟩

/-- Joins of steps of one alias are equal. -/
theorem joinsAgree_of_joinAt {joins : List JoinClause}
    (h : ∀ j ∈ joins, ∃ steps edge, DotFree steps ∧ c.JoinAt kind start root steps edge j) :
    JoinsAgree joins := by
  intro j hj k hk e
  obtain ⟨steps, _, hs, hj⟩ := h j hj
  obtain ⟨others, _, ho, hk⟩ := h k hk
  -- The alias gives back the names, which have one join.
  have same : steps = others := by
    apply stepAlias_injective hs ho
    rw [hj.stepAlias_eq, hk.stepAlias_eq, e]
  exact hj.unique (same ▸ hk)

/-! ## Joins to at most one row -/

/-- The left join of a step to at most one row, the last of some names from the table `start`. -/
inductive DirectJoin (c : Catalog) (start : Table) : List String → JoinClause → Prop where
  | mk {before : List String} {current target : Table} {name : String} {edge : Edge} :
    c.Leads start before current → c.edges.get? (current.name, name) = some edge →
    c.table? edge.target = some target → edge.cardinality = .manyToOne →
    DirectJoin c start (name :: before) ⟨.left, target.name, hopAlias (stepAlias before) name,
      edge.toColumn, ⟨(stepAlias before).getD start.name, edge.fromColumn⟩⟩

/-- A direct join is that of a step from the root table under its own name. -/
theorem DirectJoin.joinAt (h : c.DirectJoin start names j) :
    ∃ edge, c.JoinAt .left start start.name names edge j := by
  cases h with
  | mk hl hedge htarget _ => exact ⟨_, .mk hl hedge htarget⟩

/-- A direct join keeps the rows without partner. -/
theorem DirectJoin.kind_eq {j : JoinClause} (h : c.DirectJoin start names j) : j.kind = .left := by
  cases h
  rfl

/-- The joins of a path of steps to at most one row each are direct. -/
theorem directJoin_of_mem (hc : c.Coherent) {hops : List Hop} {columns : List String}
    (hl : c.Leads start before current)
    (h : c.hopsFrom root current (stepAlias before) names = .ok (hops, columns))
    (hone : ∀ hop ∈ hops, hop.cardinality = .manyToOne) (hb : DotFree before) (hn : DotFree names)
    {j : JoinClause}
    (hj : j ∈ RelationPath.joinsFrom .left ((stepAlias before).getD start.name) hops) :
    ∃ steps, DotFree steps ∧ c.DirectJoin start steps j := by
  obtain ⟨steps, edge, hdots, hat, hop, hhop, hcard⟩ := joinAt_of_mem hc hl h hb hn hj
  refine ⟨steps, hdots, ?_⟩
  cases hat with
  | mk hl hedge htarget => exact .mk hl hedge htarget (hcard.symm.trans (hone hop hhop))

/-- Direct joins of one alias are equal. -/
theorem joinsAgree_of_direct {joins : List JoinClause}
    (h : ∀ j ∈ joins, ∃ steps, DotFree steps ∧ c.DirectJoin start steps j) : JoinsAgree joins := by
  apply joinsAgree_of_joinAt (c := c)
  intro j hj
  obtain ⟨steps, hdots, hdirect⟩ := h j hj
  obtain ⟨edge, hat⟩ := hdirect.joinAt
  exact ⟨steps, edge, hdots, hat⟩

end Catalog

/-- A database honours a catalog if the target of an edge to at most one row never has a value
twice in the column that the edge leads to. -/
def Database.Honours (db : Database) (c : Catalog) : Prop :=
  ∀ key edge, c.edges.get? key = some edge → edge.cardinality = .manyToOne →
    db.UniqueIn edge.target edge.toColumn

/-- A direct join finds at most one partner in a database that honours the catalog. -/
theorem Catalog.DirectJoin.atMostOne {c : Catalog} (hc : c.Coherent) {db : Database}
    (hdb : db.Honours c) {start : Table} {names : List String} {j : JoinClause}
    (h : c.DirectJoin start names j) : db.AtMostOne j := by
  cases h with
  | mk _ hedge htarget hcard =>
    apply Database.atMostOne_of_uniqueIn
    rw [hc.table_name htarget]
    exact hdb _ _ hedge hcard

/-! ## The joins of a path -/

namespace RelationPath

/-- The joins of some steps form a chain from the alias that they begin at. -/
theorem joinsBound_joinsFrom (kind : JoinKind) (parent : String) (hops : List Hop) :
    JoinsBound [parent] (joinsFrom kind parent hops) := by
  induction hops generalizing parent with
  | nil => exact True.intro
  | cons hop hops ih =>
    refine ⟨List.mem_singleton_self parent, (ih hop.aliasName).mono ?_⟩
    exact List.cons_subset.2 ⟨List.mem_cons_self, List.nil_subset _⟩

/-- The joins of some steps go by the aliases of the steps. -/
theorem aliases_joinsFrom (kind : JoinKind) (parent : String) (hops : List Hop) :
    (joinsFrom kind parent hops).map JoinClause.aliasName = hops.map Hop.aliasName := by
  induction hops generalizing parent with
  | nil => rfl
  | cons hop hops ih => rw [joinsFrom, List.map_cons, List.map_cons, ih]

/-- The joins of some steps are of the given kind. -/
theorem kind_of_mem_joinsFrom {kind : JoinKind} {parent : String} {hops : List Hop} {j : JoinClause}
    (h : j ∈ joinsFrom kind parent hops) : j.kind = kind := by
  induction hops generalizing parent with
  | nil => exact absurd h List.not_mem_nil
  | cons hop hops ih =>
    rcases List.mem_cons.1 h with rfl | h
    · rfl
    · exact ih h

/-- The joins of some steps are to the tables of the steps. -/
theorem table_of_mem_joinsFrom {kind : JoinKind} {parent : String} {hops : List Hop}
    {j : JoinClause} (h : j ∈ joinsFrom kind parent hops) : ∃ hop ∈ hops, j.table = hop.table := by
  induction hops generalizing parent with
  | nil => exact absurd h List.not_mem_nil
  | cons hop hops ih =>
    rcases List.mem_cons.1 h with rfl | h
    · exact ⟨hop, List.mem_cons_self, rfl⟩
    · obtain ⟨later, hlater, htable⟩ := ih h
      exact ⟨later, List.mem_cons_of_mem hop hlater, htable⟩

/-- A path does not fan out if each of its steps leads to at most one row. -/
theorem fansOut_eq_false {p : RelationPath} :
    p.fansOut = false ↔ ∀ hop ∈ p.hops, hop.cardinality = .manyToOne := by
  have cases_card : ∀ card : Cardinality, card ≠ .oneToMany ↔ card = .manyToOne := by
    intro card
    cases card <;> simp
  simp [fansOut, cases_card]

end RelationPath

end RowScope
