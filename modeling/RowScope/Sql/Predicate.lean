import RowScope.Sql.Value

/-!
# Predicates

A predicate is a condition on the rows of a query, with columns named by the alias of their table. A
predicate over rows may come out true, false or unknown, as comparisons with NULL do; `notTrue`
holds of the rows for which its part is false or unknown. The constructors `conj`, `disj` and
`negate` build conjunctions, disjunctions and complements without trivial parts.
-/

namespace RowScope

/-- A column of the table that goes by an alias. -/
structure ColumnRef where
  /-- The alias of the table. -/
  aliasName : String
  /-- The name of the column. -/
  column : String
deriving DecidableEq, Repr

/-- Whether a join keeps the rows that find no partner. -/
inductive JoinKind where
  | inner
  | left
deriving DecidableEq, Repr

/-- A table that is joined under an alias, where its column equals another column. -/
structure JoinClause where
  /-- Whether rows without partner are kept. -/
  kind : JoinKind
  /-- The table. -/
  table : String
  /-- The alias. -/
  aliasName : String
  /-- The column of the table. -/
  onColumn : String
  /-- The column that it equals. -/
  other : ColumnRef
deriving DecidableEq, Repr

/-- A comparison of two values of one kind. -/
inductive CompareOp where
  | eq
  | lt
  | le
  | gt
  | ge
deriving DecidableEq, Repr

mutual

/-- A condition on the rows of a query. -/
inductive Predicate where
  /-- Every row. -/
  | always
  /-- No row. -/
  | never
  | equals (column : ColumnRef) (value : Value)
  | oneOf (column : ColumnRef) (values : List Value)
  | compare (column : ColumnRef) (op : CompareOp) (value : Value)
  /-- From `low` to `high`, both included. -/
  | between (column : ColumnRef) (low high : Value)
  /-- A text that matches a pattern in letters of either case. -/
  | like (column : ColumnRef) (pattern : String)
  /-- An array that shares an element with `values`. -/
  | overlaps (column : ColumnRef) (values : List String)
  /-- An array of the elements of `values`, in any order and number. -/
  | sameElements (column : ColumnRef) (values : List String)
  | isNull (column : ColumnRef)
  | all (parts : List Predicate)
  | any (parts : List Predicate)
  /-- The rows for which the part is false or unknown. -/
  | notTrue (part : Predicate)
  /-- A column whose value is one of the keys that a subquery finds. -/
  | inSet (column : ColumnRef) (subquery : Subquery)

/-- The keys of a table's rows that meet a condition together with the rows joined to them. -/
structure Subquery where
  /-- The table. -/
  table : String
  /-- The alias of the table. -/
  aliasName : String
  /-- The key column of the table. -/
  key : String
  /-- The tables joined to it. -/
  joins : List JoinClause
  /-- The condition on the joined rows. -/
  filter : Predicate
  /-- The condition on all joined rows of a key. -/
  having : Having

/-- A condition on all joined rows of one key. -/
inductive Having where
  /-- No condition: one row is enough. -/
  | absent
  /-- No row meets the predicate. -/
  | noneMatch (predicate : Predicate)
  /-- How the number of distinct values of a column compares with a number. -/
  | count (column : ColumnRef) (op : CompareOp) (value : Int64)

end

/-- The column of the keys that a subquery finds. -/
def Subquery.keyColumn (s : Subquery) : ColumnRef := ⟨s.aliasName, s.key⟩

/-! ## Equality -/

mutual

/-- Whether two predicates are equal. -/
def Predicate.same : Predicate → Predicate → Bool
  | .always, .always => true
  | .never, .never => true
  | .equals c v, .equals d w => c = d && v = w
  | .oneOf c vs, .oneOf d ws => c = d && vs = ws
  | .compare c o v, .compare d p w => c = d && o = p && v = w
  | .between c l h, .between d m i => c = d && l = m && h = i
  | .like c s, .like d t => c = d && s = t
  | .overlaps c vs, .overlaps d ws => c = d && vs = ws
  | .sameElements c vs, .sameElements d ws => c = d && vs = ws
  | .isNull c, .isNull d => c = d
  | .all ps, .all qs => samePredicates ps qs
  | .any ps, .any qs => samePredicates ps qs
  | .notTrue p, .notTrue q => p.same q
  | .inSet c s, .inSet d t => c = d && s.same t
  | _, _ => false

/-- Whether two lists of predicates are equal. -/
def samePredicates : List Predicate → List Predicate → Bool
  | [], [] => true
  | p :: ps, q :: qs => p.same q && samePredicates ps qs
  | _, _ => false

/-- Whether two subqueries are equal. -/
def Subquery.same : Subquery → Subquery → Bool
  | ⟨table, aliasName, key, joins, filter, having⟩, t =>
    table = t.table && aliasName = t.aliasName && key = t.key && joins = t.joins &&
      filter.same t.filter && having.same t.having

/-- Whether two conditions on the rows of a key are equal. -/
def Having.same : Having → Having → Bool
  | .absent, .absent => true
  | .noneMatch p, .noneMatch q => p.same q
  | .count c o v, .count d p w => c = d && o = p && v = w
  | _, _ => false

end

mutual

theorem Predicate.same_iff : (p q : Predicate) → (p.same q = true ↔ p = q)
  | .always, q | .never, q => by cases q <;> simp [Predicate.same]
  | .equals _ _, q | .oneOf _ _, q | .like _ _, q => by cases q <;> simp [Predicate.same]
  | .overlaps _ _, q | .sameElements _ _, q | .isNull _, q => by cases q <;> simp [Predicate.same]
  | .compare _ _ _, q | .between _ _ _, q => by cases q <;> simp [Predicate.same, and_assoc]
  | .all ps, q => by cases q <;> simp [Predicate.same, samePredicates_iff ps]
  | .any ps, q => by cases q <;> simp [Predicate.same, samePredicates_iff ps]
  | .notTrue p, q => by cases q <;> simp [Predicate.same, Predicate.same_iff p]
  | .inSet _ s, q => by cases q <;> simp [Predicate.same, Subquery.same_iff s]

theorem samePredicates_iff : (ps qs : List Predicate) → (samePredicates ps qs = true ↔ ps = qs)
  | [], qs => by cases qs <;> simp [samePredicates]
  | p :: ps, qs => by
    cases qs <;> simp [samePredicates, Predicate.same_iff p, samePredicates_iff ps]

theorem Subquery.same_iff : (s t : Subquery) → (s.same t = true ↔ s = t)
  | ⟨_, _, _, _, filter, having⟩, t => by
    cases t
    simp [Subquery.same, Predicate.same_iff filter, Having.same_iff having, and_assoc]

theorem Having.same_iff : (h k : Having) → (h.same k = true ↔ h = k)
  | .absent, k => by cases k <;> simp [Having.same]
  | .noneMatch p, k => by cases k <;> simp [Having.same, Predicate.same_iff p]
  | .count _ _ _, k => by cases k <;> simp [Having.same, and_assoc]

end

instance : DecidableEq Predicate := fun p q => decidable_of_iff _ (Predicate.same_iff p q)

/-! ## Simplifying constructors -/

namespace Predicate

/-- Whether the predicate is the one that every row meets. -/
def isAlways : Predicate → Bool
  | always => true
  | _ => false

/-- The parts of a conjunction in one list; none if one of them is `never`. -/
def conjParts : List Predicate → Option (List Predicate)
  | [] => some []
  | always :: rest => conjParts rest
  | never :: _ => none
  | all inner :: rest => (conjParts rest).map (inner ++ ·)
  | part :: rest => (conjParts rest).map (part :: ·)

/-- The conjunction of some predicates. Conjunctions among them are opened, `always` vanishes, and
`never` decides. -/
def conj (parts : List Predicate) : Predicate :=
  match conjParts parts with
  | none => never
  | some [] => always
  | some [part] => part
  | some parts => all parts

/-- The parts of a disjunction in one list; none if one of them is `always`. -/
def disjParts : List Predicate → Option (List Predicate)
  | [] => some []
  | never :: rest => disjParts rest
  | always :: _ => none
  | any inner :: rest => (disjParts rest).map (inner ++ ·)
  | part :: rest => (disjParts rest).map (part :: ·)

/-- The disjunction of some predicates. Disjunctions among them are opened, `never` vanishes, and
`always` decides. -/
def disj (parts : List Predicate) : Predicate :=
  match disjParts parts with
  | none => always
  | some [] => never
  | some [part] => part
  | some parts => any parts

/-- The complement of a predicate over all rows, those included for which it is unknown. -/
def negate : Predicate → Predicate
  | always => never
  | never => always
  | part => notTrue part

end Predicate

end RowScope
