import RowScope.Proofs.Calendar.Reading
import RowScope.Proofs.Json.Decoding
import RowScope.Sql.Json

/-!
# Reading back predicates

The decoders of values, columns, joins and predicates take what the encoders beside them write
(`Value.decodes`, `JoinClause.decodes`, `Predicate.decodes`). A predicate inside another nests less
than the other does, so the decoder of one level relies on a decoder of what nests less
(`DecodesBelow`, `decodes_predicateWith`), and the number of levels bounds the nesting.
-/

namespace RowScope

open RowScope.Json

variable {α β γ : Type}

/-! ## Values -/

/-- What is decoded is wrapped. -/
theorem decodes_wrapping {decode : Decoder α} {j : Json} {a : α} (wrap : α → β)
    (h : Decodes decode j a) : Decodes (wrapping wrap decode) j (wrap a) := by
  intro depth hdepth
  rw [wrapping, h depth hdepth]
  rfl

/-- Every date is decoded from its text, whatever the sign and size of its year. -/
theorem decodes_date (d : Calendar.Date) : Decodes decodeDate (.str d.text) d := by
  intro depth _
  show required (Calendar.readPlainDate? d.text) = _
  rw [Calendar.readPlainDate?_text]
  rfl

/-- A list of strings is decoded. -/
theorem decodes_strings (texts : List String) :
    Decodes (decodeList decodeString) (.strings texts) texts :=
  decodes_list fun s _ => decodes_string s

/-- Every value is decoded. -/
theorem Value.decodes (v : Value) : Decodes Value.decode v.toJson v := by
  cases v with
  | null => exact decodes_plain rfl
  | bool b => exact decodes_carrying rfl (decodes_wrapping Value.bool (decodes_bool b))
  | int n => exact decodes_carrying rfl (decodes_wrapping Value.int (decodes_int64 n))
  | text s => exact decodes_carrying rfl (decodes_wrapping Value.text (decodes_string s))
  | date d => exact decodes_carrying rfl (decodes_wrapping Value.date (decodes_date d))
  | textArray items =>
    exact decodes_carrying rfl (decodes_wrapping Value.textArray (decodes_strings items))

/-! ## Columns and joins -/

/-- Every column is decoded. -/
theorem ColumnRef.decodes (c : ColumnRef) : Decodes ColumnRef.decode c.toJson c :=
  decodes_record (by decide)
    (.cons rfl (decodes_string c.aliasName) (.cons rfl (decodes_string c.column) (.nil _))) rfl

/-- Every kind of join is decoded. -/
theorem JoinKind.decodes (kind : JoinKind) : Decodes JoinKind.decode (.str kind.name) kind := by
  cases kind <;> exact decodes_plain rfl

/-- Every join is decoded. -/
theorem JoinClause.decodes (j : JoinClause) : Decodes JoinClause.decode j.toJson j :=
  decodes_record (by decide)
    (.cons rfl (JoinKind.decodes j.kind) <| .cons rfl (decodes_string j.table) <|
      .cons rfl (decodes_string j.aliasName) <| .cons rfl (decodes_string j.onColumn) <|
      .cons rfl (ColumnRef.decodes j.other) <| .nil _) rfl

/-- Every list of joins is decoded. -/
theorem decodes_joins (joins : List JoinClause) :
    Decodes (decodeList JoinClause.decode) (.arr (joins.map JoinClause.toJson)) joins :=
  decodes_list fun j _ => j.decodes

/-! ## Operands -/

/-- Every comparison is decoded. -/
theorem CompareOp.decodes (op : CompareOp) : Decodes CompareOp.decode (.str op.name) op := by
  cases op <;> exact decodes_plain rfl

variable {name other : String} {decode : Decoder α} {decodeOther : Decoder β} {j k : Json} {a : α}
  {b : β}

/-- A column and one operand are decoded. -/
theorem decodes_operand (hname : ["column", name].Nodup) (build : ColumnRef → α → γ)
    (c : ColumnRef) (h : Decodes decode j a) :
    Decodes (decodeOperand name decode build) (.obj [("column", c.toJson), (name, j)])
      (build c a) :=
  decodes_record hname (.cons rfl c.decodes <| .cons rfl h <| .nil _) rfl

/-- A column and two operands are decoded. -/
theorem decodes_operands (hnames : ["column", name, other].Nodup) (build : ColumnRef → α → β → γ)
    (c : ColumnRef) (h : Decodes decode j a) (hother : Decodes decodeOther k b) :
    Decodes (decodeOperands name decode other decodeOther build)
      (.obj [("column", c.toJson), (name, j), (other, k)]) (build c a b) :=
  decodes_record hnames (.cons rfl c.decodes <| .cons rfl h <| .cons rfl hother <| .nil _) rfl

/-- A column alone is decoded. -/
theorem decodes_columnAlone (build : ColumnRef → α) (c : ColumnRef) :
    Decodes (decodeColumnAlone build) (.obj [("column", c.toJson)]) (build c) :=
  decodes_record (by simp) (.cons rfl c.decodes <| .nil _) rfl

/-! ## Predicates -/

/-- Some predicates in JSON, one by one. -/
theorem partsToJson_eq_map (parts : List Predicate) :
    partsToJson parts = parts.map Predicate.toJson := by
  induction parts with
  | nil => rfl
  | cons part parts ih => rw [partsToJson, ih, List.map_cons]

/-- A predicate nests less than the array of predicates that it stands in. -/
theorem depth_lt_parts {parts : List Predicate} {p : Predicate} (h : p ∈ parts) :
    p.toJson.depth < (Json.arr (partsToJson parts)).depth :=
  depth_lt_arr (partsToJson_eq_map parts ▸ List.mem_map_of_mem h)

/-- Whether a decoder takes every predicate that nests less than so many levels. -/
def DecodesBelow (inner : Decoder Predicate) (n : Nat) : Prop :=
  ∀ p : Predicate, p.toJson.depth < n → Decodes inner p.toJson p

section Inner

variable {inner : Decoder Predicate} {n : Nat}

/-- Some predicates are decoded if each of them is. -/
theorem decodes_parts (hinner : DecodesBelow inner n) (parts : List Predicate)
    (hn : (Json.arr (partsToJson parts)).depth < n) :
    Decodes (decodeList inner) (.arr (partsToJson parts)) parts := by
  have hparts : ∀ p ∈ parts, Decodes inner p.toJson p := fun p hp =>
    hinner p (Nat.lt_trans (depth_lt_parts hp) hn)
  rw [partsToJson_eq_map]
  exact decodes_list hparts

/-- A condition on the rows of a key is decoded if the predicate in it is. -/
theorem Having.decodes (hinner : DecodesBelow inner n) (having : Having)
    (hn : having.toJson.depth < n) :
    Decodes (decodeHaving inner) having.toJson having := by
  cases having with
  | absent => exact fun _ _ => rfl
  | noneMatch p =>
    have hp : p.toJson.depth < n := Nat.lt_trans (depth_lt_obj _ List.mem_cons_self) hn
    exact decodes_carrying rfl (decodes_wrapping Having.noneMatch (hinner p hp))
  | count column op value =>
    exact decodes_carrying rfl
      (decodes_operands (by decide) Having.count column op.decodes (decodes_int64 value))

/-- A subquery is decoded if the predicates in it are. -/
theorem Subquery.decodes (hinner : DecodesBelow inner n) (s : Subquery)
    (hn : s.toJson.depth < n) : Decodes (decodeSubquery inner) s.toJson s := by
  obtain ⟨table, aliasName, key, joins, filter, having⟩ := s
  have hfilter : filter.toJson.depth < n := Nat.lt_trans (depth_lt_obj "filter" (by simp)) hn
  have hhaving : having.toJson.depth < n := Nat.lt_trans (depth_lt_obj "having" (by simp)) hn
  have hnames : ["table", "alias", "key", "joins", "filter", "having"].Nodup := by decide
  exact decodes_record hnames
    (.cons rfl (decodes_string table) <| .cons rfl (decodes_string aliasName) <|
      .cons rfl (decodes_string key) <| .cons rfl (decodes_joins joins) <|
      .cons rfl (hinner filter hfilter) <|
      .cons rfl (having.decodes hinner hhaving) <| .nil _) rfl

/-- A predicate is decoded if those are that nest less. -/
theorem decodes_predicateWith (p : Predicate) (hinner : DecodesBelow inner p.toJson.depth) :
    Decodes (decodePredicateWith inner) p.toJson p := by
  cases p with
  | always => exact decodes_plain rfl
  | never => exact decodes_plain rfl
  | equals column value =>
    exact decodes_carrying rfl (decodes_operand (by decide) Predicate.equals column value.decodes)
  | oneOf column values =>
    exact decodes_carrying rfl (decodes_operand (by decide) Predicate.oneOf column
      (decodes_list fun v _ => v.decodes))
  | compare column op value =>
    exact decodes_carrying rfl
      (decodes_operands (by decide) Predicate.compare column op.decodes value.decodes)
  | between column low high =>
    exact decodes_carrying rfl
      (decodes_operands (by decide) Predicate.between column low.decodes high.decodes)
  | like column pattern =>
    exact decodes_carrying rfl
      (decodes_operand (by decide) Predicate.like column (decodes_string pattern))
  | overlaps column values =>
    exact decodes_carrying rfl
      (decodes_operand (by decide) Predicate.overlaps column (decodes_strings values))
  | sameElements column values =>
    exact decodes_carrying rfl
      (decodes_operand (by decide) Predicate.sameElements column (decodes_strings values))
  | isNull column => exact decodes_carrying rfl (decodes_columnAlone Predicate.isNull column)
  | all parts =>
    exact decodes_carrying rfl (decodes_wrapping Predicate.all
      (decodes_parts hinner parts (depth_lt_obj _ List.mem_cons_self)))
  | any parts =>
    exact decodes_carrying rfl (decodes_wrapping Predicate.any
      (decodes_parts hinner parts (depth_lt_obj _ List.mem_cons_self)))
  | notTrue part =>
    exact decodes_carrying rfl
      (decodes_wrapping Predicate.notTrue (hinner part (depth_lt_obj _ List.mem_cons_self)))
  | inSet column subquery =>
    have hdepth : subquery.toJson.depth < (Predicate.inSet column subquery).toJson.depth :=
      Nat.lt_trans (depth_lt_obj "subquery" (by simp)) (depth_lt_obj "in_set" List.mem_cons_self)
    exact decodes_carrying rfl (decodes_operand (by decide) Predicate.inSet column
      (subquery.decodes hinner hdepth))

end Inner

/-- A predicate is decoded within as many levels as it nests. -/
theorem decodes_predicateWithin (levels : Nat) : ∀ p : Predicate, p.toJson.depth ≤ levels →
    Decodes (decodePredicateWithin levels) p.toJson p := by
  induction levels with
  | zero =>
    intro p hp
    exact decodes_predicateWith p fun q hq => absurd (Nat.lt_of_lt_of_le hq hp) (Nat.not_lt_zero _)
  | succ levels ih =>
    intro p hp
    exact decodes_predicateWith p fun q hq => ih q (Nat.le_of_lt_succ (Nat.lt_of_lt_of_le hq hp))

/-- Every predicate is decoded. -/
theorem Predicate.decodes (p : Predicate) : Decodes Predicate.decode p.toJson p :=
  fun depth hdepth => decodes_predicateWithin depth p hdepth depth hdepth

end RowScope
