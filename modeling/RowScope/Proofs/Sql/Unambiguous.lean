import RowScope.Proofs.Sql.Leaves
import RowScope.Proofs.Sql.Reading

/-!
# One text, one predicate

Two normal predicates with one text and the same values are the same predicate, but for equalities
that are stated as comparisons (`text_eq_iff_plain_eq`). Names may have any characters, and
predicates may nest through subqueries to any depth. The condition of being normal excludes what the
text cannot show: a connective of one part, which is written like its part under a complement, and
an empty list of values, which is written like `never`.

Restating the equalities (`Predicate.plain`) changes neither text nor values, and it makes a normal
predicate canonical (`Predicate.Normal.canonical_plain`), so that it can be read back.
-/

namespace RowScope

namespace Predicate

/-- Whether a predicate has the operands that its text needs: a connective two parts, and a list of
values one value. -/
def hasOperands : Predicate → Bool
  | all parts | any parts => 2 ≤ parts.length
  | oneOf _ values => !values.isEmpty
  | always | never | equals _ _ | compare _ _ _ | between _ _ _ | like _ _ | overlaps _ _
  | sameElements _ _ | isNull _ | notTrue _ | inSet _ _ => true

/-- All predicates that a predicate is built of have the operands that their texts need. -/
abbrev Normal (p : Predicate) : Prop := p.Everywhere hasOperands

/-- An equality that is stated as a comparison becomes a plain one. -/
def plainLeaf : Predicate → Predicate
  | compare column .eq value => .equals column value
  | a => a

/-- The predicate with plain equalities only. -/
def plain (p : Predicate) : Predicate := p.mapLeaves plainLeaf id

/-- A leaf is written like the plain one. -/
theorem pieces_plainLeaf (a : Predicate) : SameWriting (plainLeaf a).pieces a.pieces := by
  unfold plainLeaf
  split
  · exact isTextual_sameWriting.before _ ⟨fun _ => rfl, rfl⟩
  · exact isTextual_sameWriting.refl _

/-- A predicate is written like the one with plain equalities. -/
theorem pieces_plain (p : Predicate) : SameWriting p.plain.pieces p.pieces := by
  refine pieces_mapLeaves isTextual_sameWriting (fun a => ?_) (fun a _ => pieces_plainLeaf a)
    (fun _ => isTextual_sameWriting.refl _) p
  unfold plainLeaf
  split <;> rfl

/-- A list of two members or more begins with two members. -/
theorem exists_cons_cons_of_length {parts : List Predicate} (h : 2 ≤ parts.length) :
    ∃ first second others, parts = first :: second :: others := by
  apply Canonical.exists_cons_cons
  · rintro rfl
    simp at h
  · rintro part rfl
    simp at h

/-- The parts of a normal connective are canonical with plain equalities, if each of them is. -/
theorem canonical_parts {parts : List Predicate} (h : ∀ part ∈ parts, part.plain.Canonical) :
    ∀ part ∈ mapLeavesOf plainLeaf id parts, part.Canonical := by
  rw [mapLeavesOf_eq_map]
  exact List.forall_mem_map.2 h

/-- A normal leaf is canonical with plain equalities. -/
theorem canonical_plainLeaf {a : Predicate} (hleaf : a.isLeaf = true)
    (h : a.hasOperands = true) : (plainLeaf a).Canonical := by
  cases a with
  | always => exact .always
  | never => exact .never
  | isNull column => exact .isNull
  | oneOf column values => exact .comparison rfl h
  | compare column op value => cases op <;> exact .comparison rfl rfl
  | equals _ _ | between _ _ _ | like _ _ | overlaps _ _ | sameElements _ _ =>
    exact .comparison rfl rfl
  | all _ | any _ | notTrue _ | inSet _ _ => cases hleaf

/-- A normal predicate is canonical with plain equalities. -/
theorem Normal.canonical_plain {p : Predicate} (h : p.Normal) : p.plain.Canonical := by
  induction p using nested_induction with
  | leaf a hleaf =>
    rw [plain, mapLeaves_leaf hleaf]
    exact canonical_plainLeaf hleaf ((everywhere_leaf hleaf).1 h)
  | all parts ih =>
    obtain ⟨hlength, hparts⟩ := everywhere_all.1 h
    obtain ⟨first, second, others, rfl⟩ := exists_cons_cons_of_length (of_decide_eq_true hlength)
    exact .all (canonical_parts fun part hpart => ih part hpart (hparts part hpart))
  | any parts ih =>
    obtain ⟨hlength, hparts⟩ := everywhere_any.1 h
    obtain ⟨first, second, others, rfl⟩ := exists_cons_cons_of_length (of_decide_eq_true hlength)
    exact .any (canonical_parts fun part hpart => ih part hpart (hparts part hpart))
  | notTrue part ih => exact .notTrue (ih (everywhere_notTrue.1 h).2)
  | inSet column s hfilter hhaving =>
    obtain ⟨-, hnormal, hrows⟩ := everywhere_inSet.1 h
    obtain ⟨table, aliasName, key, joins, filter, having⟩ := s
    refine .inSet ?_ fun p hp => ?_
    · -- A condition that every row meets is none of the nodes, and canonical.
      rcases hnormal with hnone | hnormal
      · cases hnone
        exact .always
      · exact hfilter hnormal
    · cases having with
      | absent | count _ _ _ => cases hp
      | noneMatch q =>
        cases hp
        exact hhaving q rfl (hrows q rfl)

/-- Two normal predicates have one text and the same values exactly if they are equal but for
equalities that are stated as comparisons. -/
theorem text_eq_iff_plain_eq {p q : Predicate} (hp : p.Normal) (hq : q.Normal) :
    p.text = q.text ∧ p.params = q.params ↔ p.plain = q.plain := by
  have writes : ∀ r : Predicate, r.plain.text = r.text ∧ r.plain.params = r.params :=
    fun r => ⟨r.pieces_plain.render_eq, r.pieces_plain.values⟩
  constructor
  · rintro ⟨htext, hparams⟩
    have hplain : p.plain.text = q.plain.text := by
      calc p.plain.text = p.text := (writes p).1
        _ = q.text := htext
        _ = q.plain.text := (writes q).1.symm
    have hvalues : p.plain.params = q.plain.params := by
      calc p.plain.params = p.params := (writes p).2
        _ = q.params := hparams
        _ = q.plain.params := (writes q).2.symm
    exact hp.canonical_plain.eq_of_render hq.canonical_plain hplain hvalues
  · intro h
    rw [← (writes p).1, ← (writes q).1, ← (writes p).2, ← (writes q).2, h]
    exact ⟨rfl, rfl⟩

end Predicate

/-- The grants none of whose goals meets a given condition without having one of two names. -/
def grantsWithoutGoals (condition : Predicate) : Predicate :=
  .inSet ⟨"Grants", "id"⟩
    ⟨"Grants", "root", "id",
      [⟨.left, "Goals", "goals", "grantId", ⟨"root", "id"⟩⟩], .always,
      .noneMatch (.all [.notTrue (.oneOf ⟨"goals", "na\"me"⟩ [.null, .text "$1"]), condition])⟩

/-- An equality inside of a subquery has one text and one value in both of its forms. -/
theorem Predicate.text_eq_of_forms :
    (grantsWithoutGoals (.compare ⟨"goals", "open"⟩ .eq (.bool true))).Normal ∧
      (grantsWithoutGoals (.equals ⟨"goals", "open"⟩ (.bool true))).Normal ∧
      (grantsWithoutGoals (.compare ⟨"goals", "open"⟩ .eq (.bool true))).text =
        (grantsWithoutGoals (.equals ⟨"goals", "open"⟩ (.bool true))).text ∧
      (grantsWithoutGoals (.compare ⟨"goals", "open"⟩ .eq (.bool true))).params =
        (grantsWithoutGoals (.equals ⟨"goals", "open"⟩ (.bool true))).params := by
  have hfirst : (grantsWithoutGoals (.compare ⟨"goals", "open"⟩ .eq (.bool true))).Normal := by
    decide
  have hsecond : (grantsWithoutGoals (.equals ⟨"goals", "open"⟩ (.bool true))).Normal := by decide
  exact ⟨hfirst, hsecond, (Predicate.text_eq_iff_plain_eq hfirst hsecond).2 rfl⟩

end RowScope
