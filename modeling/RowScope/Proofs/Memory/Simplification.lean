import RowScope.Proofs.Memory.Evaluation

/-!
# The truth of simplified conditions

The simplifying constructors keep all three truth values of parts that evaluate, however the parts
nest: what they open, leave out or decide at once has the truth of the plain connective, unknown
included (`simplified_truth`). Evaluation goes through the truths of the parts in their order and
stops at the first that decides. Its result is a matter of which truths there are all the same
(`Truth.all_congr`, `Truth.any_congr`), so neither the order nor the number of equal parts counts.
-/

namespace RowScope

/-! ## The truths of the parts -/

namespace Truth

variable {ts us : List Truth}

/-- A conjunction depends on which truths its parts have, not on their order and number. -/
theorem all_congr (h : ∀ t, t ∈ ts ↔ t ∈ us) : all ts = all us := by
  rw [all_eq, all_eq]
  simp only [h]

/-- A disjunction depends on which truths its parts have, not on their order and number. -/
theorem any_congr (h : ∀ t, t ∈ ts ↔ t ∈ us) : any ts = any us := by
  rw [any_eq, any_eq]
  simp only [h]

end Truth

namespace Database

variable {db : Database} {row : JoinedRow} {ps qs : List Predicate} {ts us : List Truth}

/-- Predicates that are the same but for order and number have the same truths. -/
theorem mem_truths_congr (h : ∀ p, p ∈ ps ↔ p ∈ qs) (hps : db.truths row ps = .ok ts)
    (hqs : db.truths row qs = .ok us) (t : Truth) : t ∈ ts ↔ t ∈ us := by
  rw [mem_truths hps, mem_truths hqs]
  simp only [h]

/-! ## Connectives -/

/-- A complement is simplified to a condition of the same truth, or of the same fault. -/
theorem truth_negate_eq (p : Predicate) : db.truth row p.negate = db.truth row (.notTrue p) := by
  -- Only the two constants are not put under the complement as they are.
  cases p <;> rfl

/-- The parts of a connective may be put in another order, repeated, and left out where they are
repeated. -/
theorem truth_connective_congr (h : ∀ p, p ∈ ps ↔ p ∈ qs) (hps : ∀ p ∈ ps, db.Evaluates row p) :
    db.truth row (.all ps) = db.truth row (.all qs) ∧
      db.truth row (.any ps) = db.truth row (.any qs) := by
  obtain ⟨ts, hts⟩ := truths_of_evaluates hps
  obtain ⟨us, hus⟩ := truths_of_evaluates fun q hq => hps q ((h q).2 hq)
  have hsame := mem_truths_congr h hts hus
  rw [truth_all, truth_all, truth_any, truth_any, hts, hus]
  exact ⟨congrArg Except.ok (Truth.all_congr hsame), congrArg Except.ok (Truth.any_congr hsame)⟩

/-- Parts that evaluate make a simplified conjunction and a simplified disjunction that evaluate,
with the truths of the plain ones, and the truths of the plain ones are those of the same parts in
any order and number. A simplified complement always has the truth of the plain one. -/
theorem simplified_truth (db : Database) (row : JoinedRow) (parts : List Predicate)
    (h : ∀ part ∈ parts, db.Evaluates row part) :
    (∃ t, db.truth row (.conj parts) = .ok t ∧ db.truth row (.all parts) = .ok t) ∧
      (∃ t, db.truth row (.disj parts) = .ok t ∧ db.truth row (.any parts) = .ok t) ∧
      (∀ p : Predicate, db.truth row p.negate = db.truth row (.notTrue p)) ∧
      ∀ others : List Predicate, (∀ p, p ∈ others ↔ p ∈ parts) →
        db.truth row (.all others) = db.truth row (.all parts) ∧
          db.truth row (.any others) = db.truth row (.any parts) := by
  obtain ⟨ts, hts⟩ := truths_of_evaluates h
  refine ⟨⟨Truth.all ts, truth_conj hts, truth_all_eq_ok.2 ⟨ts, hts, rfl⟩⟩,
    ⟨Truth.any ts, truth_disj hts, truth_any_eq_ok.2 ⟨ts, hts, rfl⟩⟩, truth_negate_eq,
    fun others hsame => ?_⟩
  exact truth_connective_congr hsame fun p hp => h p ((hsame p).1 hp)

end Database

/-- Conditions on a row without values: an unknown comparison, an empty disjunction inside a
conjunction, a complement, and a test for keys that cannot be told. -/
def unsettledParts : List Predicate :=
  let region : ColumnRef := ⟨"Grants", "regionId"⟩
  [.equals region (.int 1), .all [.always, .any [.isNull region, .any []]],
    .notTrue (.equals region (.int 1)),
    .inSet ⟨"Grants", "id"⟩ ⟨"Grants", "root", "id", [], .always, .absent⟩]

/-- The conjunction of parts that are partly unknown is unknown, simplified or not, and in any
order. -/
theorem Database.simplified_truth_unsettled :
    (∀ part ∈ unsettledParts,
        Database.empty.Evaluates [("Grants", some OrderedMap.empty)] part) ∧
      Database.empty.truth [("Grants", some OrderedMap.empty)] (.all unsettledParts) = .ok none ∧
      Database.empty.truth [("Grants", some OrderedMap.empty)] (.conj unsettledParts) = .ok none ∧
      Database.empty.truth [("Grants", some OrderedMap.empty)]
        (.all (unsettledParts.reverse ++ unsettledParts)) = .ok none := by
  have hparts : ∀ part ∈ unsettledParts,
      Database.empty.Evaluates [("Grants", some OrderedMap.empty)] part := by
    intro part hpart
    simp only [unsettledParts, List.mem_cons, List.not_mem_nil, or_false] at hpart
    rcases hpart with rfl | rfl | rfl | rfl
    · exact ⟨none, rfl⟩
    · exact ⟨some true, rfl⟩
    · exact ⟨some true, rfl⟩
    · exact ⟨none, rfl⟩
  have hall : Database.empty.truth [("Grants", some OrderedMap.empty)] (.all unsettledParts) =
      .ok none := rfl
  obtain ⟨⟨t, hconj, ht⟩, -, -, horder⟩ := Database.simplified_truth Database.empty
    [("Grants", some OrderedMap.empty)] unsettledParts hparts
  rw [hall] at ht
  cases ht
  refine ⟨hparts, hall, hconj, ?_⟩
  rw [(horder (unsettledParts.reverse ++ unsettledParts) (by simp)).1, hall]

end RowScope
