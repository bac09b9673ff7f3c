import RowScope.Proofs.Memory.Subquery

/-!
# Rows with ids

In an identified database every row has an integer id that no other row of its table has
(`Database.Identified`). The column `id` then identifies the rows (`Identified.keyed`), and to
choose among the rows of a table is to choose among its ids (`Identified.mem_filter_ids`).
-/

namespace RowScope

/-- The id of a row, if it is an integer. -/
def Row.id? (row : Row) : Option Int64 :=
  match row.value "id" with
  | .int id => some id
  | _ => none

/-- A row with an integer id. -/
theorem Row.id?_eq_some {row : Row} {id : Int64} :
    row.id? = some id ↔ row.value "id" = .int id := by
  unfold Row.id?
  split
  · next n h => simp [h]
  · next h => simpa using h id

namespace Database

variable {db : Database} {table : String}

/-- Every row has an integer id that is unique in its table. -/
structure Identified (db : Database) : Prop where
  /-- Every row has an integer id. -/
  integer : ∀ table, ∀ row ∈ db.rows table, ∃ id, Row.value row "id" = .int id
  /-- The rows of a table have different ids. -/
  distinct : ∀ table, ((db.rows table).filterMap Row.id?).Nodup

/-- No id stands twice in a table. -/
theorem Identified.uniqueIn (h : db.Identified) : db.UniqueIn table "id" := by
  have pairs := List.pairwise_filterMap.1 (h.distinct table)
  refine pairs.imp_of_mem fun {a b} ha _ hne he => ?_
  obtain ⟨id, hid⟩ := h.integer table a ha
  have hidb : Row.value b "id" = .int id := he ▸ hid
  exact absurd rfl (hne id (Row.id?_eq_some.2 hid) id (Row.id?_eq_some.2 hidb))

/-- The id of a row identifies it. -/
theorem Identified.keyed (h : db.Identified) {r : Row} (hr : r ∈ db.rows table) :
    db.Keyed table "id" r where
  mem := hr
  unique := h.uniqueIn
  not_null := by
    obtain ⟨id, hid⟩ := h.integer table r hr
    rw [hid]
    exact Value.noConfusion

/-- The tables of a database decide whether it is identified. -/
theorem identified_of_entries
    (h : ∀ e ∈ db.tables.entries,
      (∀ row ∈ e.2, (Row.id? row).isSome = true) ∧ (e.2.filterMap Row.id?).Nodup) :
    db.Identified := by
  -- The rows of a table are those of its entry, and a table without entry has none.
  have rows_eq : ∀ table, db.rows table = [] ∨ ∃ e ∈ db.tables.entries, db.rows table = e.2 := by
    intro table
    unfold rows
    cases hget : db.tables.get? table with
    | none => exact .inl rfl
    | some found => exact .inr ⟨_, OrderedMap.get?_eq_some_iff.1 hget, rfl⟩
  constructor <;> intro table <;> rcases rows_eq table with hrows | ⟨e, he, hrows⟩ <;> rw [hrows]
  · exact fun row hrow => absurd hrow List.not_mem_nil
  · intro row hrow
    obtain ⟨id, hid⟩ := Option.isSome_iff_exists.1 ((h e he).1 row hrow)
    exact ⟨id, Row.id?_eq_some.1 hid⟩
  · exact List.nodup_nil
  · exact (h e he).2

/-! ## Choices among ids -/

/-- Rows with integer ids have one id each. -/
theorem map_filterMap_id {rows : List Row} (h : ∀ r ∈ rows, ∃ id, Row.value r "id" = .int id) :
    (rows.filterMap Row.id?).map Value.int = rows.map fun r => Row.value r "id" := by
  induction rows with
  | nil => rfl
  | cons r rows ih =>
    obtain ⟨⟨id, hid⟩, hrest⟩ := List.forall_mem_cons.1 h
    rw [List.filterMap_cons_some (Row.id?_eq_some.2 hid), List.map_cons, List.map_cons, ih hrest,
      hid]

/-- The ids of the rows of a table, in the order of the rows. -/
def ids (db : Database) (table : String) : List Int64 := (db.rows table).filterMap Row.id?

/-- The id of a row is among those of some rows exactly if the row is. -/
theorem Identified.mem_filter_ids (h : db.Identified) {r : Row} {id : Int64} {keep : Row → Bool}
    (hr : r ∈ db.rows table) (hid : r.id? = some id) :
    id ∈ ((db.rows table).filter keep).filterMap Row.id? ↔ keep r = true := by
  rw [List.mem_filterMap]
  constructor
  · -- The row that was kept has the id of the given one, so it is that row.
    rintro ⟨other, hother, hoid⟩
    obtain ⟨hmem, hkeep⟩ := List.mem_filter.1 hother
    have same : other = r := by
      apply (h.keyed hr).eq_of_value_eq hmem
      rw [Row.id?_eq_some.1 hid, Row.id?_eq_some.1 hoid]
    exact same ▸ hkeep
  · exact fun hkeep => ⟨r, List.mem_filter.2 ⟨hr, hkeep⟩, hid⟩

/-- The ids of the rows that a test keeps are the ids that a test of ids keeps, if the tests agree
on the rows. -/
theorem filterMap_filter_id {keep : Row → Bool} {keepId : Int64 → Bool} {rows : List Row}
    (h : ∀ r ∈ rows, ∀ id, r.id? = some id → keepId id = keep r) :
    (rows.filter keep).filterMap Row.id? = (rows.filterMap Row.id?).filter keepId := by
  induction rows with
  | nil => rfl
  | cons r rows ih =>
    have ih := ih fun other ho => h other (List.mem_cons_of_mem r ho)
    cases hid : r.id? with
    | none =>
      -- A row without an id is on neither side, kept or not.
      rw [List.filterMap_cons_none hid, ← ih, List.filter_cons]
      split
      · rw [List.filterMap_cons_none hid]
      · rfl
    | some id =>
      rw [List.filterMap_cons_some hid, List.filter_cons, List.filter_cons, ← ih,
        h r List.mem_cons_self id hid]
      split
      · rw [List.filterMap_cons_some hid]
      · rfl

end Database

end RowScope
