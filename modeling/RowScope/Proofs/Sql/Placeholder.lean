import RowScope.Proofs.Sql.Leaves

/-!
# Placeholders and values

The placeholders of a predicate's text are numbered from 1 in the order of the text, one for each
value that is bound. The text and the list of values go through the leaves of the predicate in one
order (`Interleaves`): so the placeholders in a leaf's part of the text are those of the values of
the leaf, and of no other. The text depends on the values by their number only, since a predicate
and its shape, in which all values are replaced, have one text (`Predicate.text_shape`). All this is
`placeholders_correspond`.
-/

namespace RowScope

/-- The numbers of the placeholders of a text in their order, those in quoted names aside. -/
def placeholders (text : String) : Option (List Nat) := (Lexer.lex text).map slots

/-- Legible pieces have a placeholder for each value, numbered from those before them. -/
theorem Legible.placeholders_eq {pieces : List SqlPiece} (h : Legible pieces) (bound : Nat) :
    placeholders (String.ofList (renderFrom bound pieces)) =
      some (List.range' (bound + 1) (params pieces).length) := by
  rw [placeholders, Lexer.lex, String.toList_ofList, lexFrom_renderFrom h, Option.map_some,
    slots_numberedFrom, slots_tokens]

/-! ## Leaves -/

/-- A part of a predicate that binds values of its own. -/
inductive SqlLeaf where
  /-- A condition without conditions inside. -/
  | test (condition : Predicate)
  /-- A condition on the number of distinct values of a column. -/
  | count (column : ColumnRef) (op : CompareOp) (value : Int64)

namespace SqlLeaf

/-- The pieces of a leaf. -/
def pieces : SqlLeaf → List SqlPiece
  | test condition => condition.pieces
  | count column op value =>
    .code " HAVING COUNT(DISTINCT " :: column.pieces ++
      [.code ") ", .code op.symbol, .code " ", .param (.int value)]

/-- The values of a leaf in their order. An array that is compared in both directions counts
twice. -/
def values : SqlLeaf → List Value
  | test (.equals _ value) | test (.compare _ _ value) => [value]
  | test (.oneOf _ values) => values
  | test (.between _ low high) => [low, high]
  | test (.like _ pattern) => [.text pattern]
  | test (.overlaps _ values) => [.textArray values]
  | test (.sameElements _ values) => [.textArray values, .textArray values]
  | test .always | test .never | test (.isNull _) => []
  | test (.all _) | test (.any _) | test (.notTrue _) | test (.inSet _ _) => []
  | count _ _ value => [.int value]

/-- The text of a leaf, where so many values have been bound already. -/
def textAfter (bound : Nat) (leaf : SqlLeaf) : String :=
  String.ofList (renderFrom bound leaf.pieces)

end SqlLeaf

/-- The number of values that some leaves bind. -/
def boundBy (leaves : List SqlLeaf) : Nat := (leaves.flatMap SqlLeaf.values).length

mutual

/-- The leaves of a predicate in the order of its text. -/
def Predicate.leaves : Predicate → List SqlLeaf
  | .all parts | .any parts => leavesOf parts
  | .notTrue part => part.leaves
  | .inSet _ s => s.leaves
  | leaf => [.test leaf]

/-- The leaves of some predicates. -/
def leavesOf : List Predicate → List SqlLeaf
  | [] => []
  | part :: parts => part.leaves ++ leavesOf parts

/-- The leaves of a subquery. A condition that every row meets is not written. -/
def Subquery.leaves : Subquery → List SqlLeaf
  | ⟨_, _, _, _, filter, having⟩ =>
    (if filter.isAlways then [] else filter.leaves) ++ having.leaves

/-- The leaves of a condition on the rows of a key. -/
def Having.leaves : Having → List SqlLeaf
  | .absent => []
  | .noneMatch predicate => predicate.leaves
  | .count column op value => [.count column op value]

end

/-- A leaf stands in a text after so many placeholders: the numbers up to there stand before it, its
own values have the next ones, and the others follow. -/
def SqlLeaf.StandsIn (leaf : SqlLeaf) (text : String) (bound : Nat) : Prop :=
  ∃ front back others, text = front ++ leaf.textAfter bound ++ back ∧
    placeholders front = some (List.range' 1 bound) ∧
    placeholders (leaf.textAfter bound) = some (List.range' (bound + 1) leaf.values.length) ∧
    placeholders back = some (List.range' (bound + leaf.values.length + 1) others)

/-! ## Values of pieces -/

/-- The values between separators. -/
theorem params_separated (separator : String) (values : List Value) :
    params (separated separator (values.map fun v => [.param v])) = values := by
  induction values with
  | nil => rfl
  | cons value values ih =>
    cases values with
    | nil => rfl
    | cons second values => exact congrArg (value :: ·) ih

/-- A column binds no values. -/
theorem params_column (column : ColumnRef) : params column.pieces = [] := rfl

/-- Joins bind no values. -/
theorem params_joins (joins : List JoinClause) :
    params (joins.flatMap fun j => .code " " :: j.pieces) = [] := by
  induction joins with
  | nil => rfl
  | cons j joins ih =>
    have hjoin : params (.code " " :: j.pieces) = [] := rfl
    rw [List.flatMap_cons, params_append, hjoin, ih, List.append_nil]

/-- The pieces of a condition without conditions inside bind the values of the leaf. -/
theorem params_leaf {a : Predicate} (h : a.isLeaf = true) :
    params a.pieces = (SqlLeaf.test a).values := by
  cases a with
  | oneOf column values =>
    cases values with
    | nil => rfl
    | cons value values =>
      have hvalues := params_separated ", " (value :: values)
      simp only [Predicate.pieces, params_append, params_column, List.nil_append, params,
        SqlLeaf.values, List.append_nil]
      exact hvalues
  | all _ | any _ | notTrue _ | inSet _ _ => cases h
  | _ => rfl

/-! ## Leaves between code and names -/

/-- Pieces consist of the pieces of some leaves in their order, which bind the values of the leaves,
and of code and names around them. -/
inductive Interleaves : List SqlPiece → List SqlLeaf → Prop
  | nil {xs : List SqlPiece} : params xs = [] → Interleaves xs []
  | cons {front rest : List SqlPiece} {leaf : SqlLeaf} {leaves : List SqlLeaf} :
    params front = [] → params leaf.pieces = leaf.values → Interleaves rest leaves →
      Interleaves (front ++ (leaf.pieces ++ rest)) (leaf :: leaves)

namespace Interleaves

variable {xs ys : List SqlPiece} {leaves others before after : List SqlLeaf} {leaf : SqlLeaf}

/-- Code and names may stand before leaves. -/
theorem skip (xs : List SqlPiece) (hx : params xs = []) (h : Interleaves ys leaves) :
    Interleaves (xs ++ ys) leaves := by
  cases h with
  | nil hy => exact .nil (by rw [params_append, hx, hy]; rfl)
  | @cons front rest leaf leaves hfront hleaf hrest =>
    rw [← List.append_assoc]
    exact .cons (by rw [params_append, hx, hfront]; rfl) hleaf hrest

/-- Leaves may follow leaves. -/
theorem append (hx : Interleaves xs leaves) (hy : Interleaves ys others) :
    Interleaves (xs ++ ys) (leaves ++ others) := by
  induction hx with
  | nil hx => exact hy.skip _ hx
  | cons hfront hleaf _ ih =>
    rw [List.append_assoc, List.append_assoc]
    exact .cons hfront hleaf ih

/-- Code and names may stand after leaves. -/
theorem close (h : Interleaves xs leaves) (hy : params ys = []) :
    Interleaves (xs ++ ys) leaves := by
  have happend := h.append (.nil hy)
  rwa [List.append_nil] at happend

/-- The pieces of one leaf. -/
theorem single (leaf : SqlLeaf) (h : params leaf.pieces = leaf.values) :
    Interleaves leaf.pieces [leaf] := by
  have hcons : Interleaves ([] ++ (leaf.pieces ++ [])) [leaf] := .cons rfl h (.nil rfl)
  rwa [List.nil_append, List.append_nil] at hcons

/-- The values are those of the leaves. -/
theorem params_eq (h : Interleaves xs leaves) : params xs = leaves.flatMap SqlLeaf.values := by
  induction h with
  | nil hx => exact hx
  | cons hfront hleaf _ ih =>
    rw [params_append, params_append, hfront, hleaf, ih, List.nil_append, List.flatMap_cons]

/-- The pieces of a leaf stand between those of the leaves before it and after it. -/
theorem split (h : Interleaves xs (before ++ leaf :: after)) :
    ∃ front back, xs = front ++ (leaf.pieces ++ back) ∧ params leaf.pieces = leaf.values ∧
      Interleaves front before ∧ Interleaves back after := by
  induction before generalizing xs with
  | nil =>
    cases h with
    | @cons front rest _ _ hfront hleaf hrest =>
      exact ⟨front, rest, rfl, hleaf, .nil hfront, hrest⟩
  | cons first before ih =>
    cases h with
    | @cons start rest _ _ hstart hfirst hrest =>
      obtain ⟨front, back, rfl, hleaf, hfront, hback⟩ := ih hrest
      refine ⟨start ++ (first.pieces ++ front), back, ?_, hleaf, .cons hstart hfirst hfront, hback⟩
      simp only [List.append_assoc]

/-- Leaves between separators. -/
theorem separated {separator : String} {parts : List Predicate}
    (h : ∀ part ∈ parts, Interleaves part.pieces part.leaves) :
    Interleaves (separated separator (piecesOfParts parts)) (leavesOf parts) := by
  induction parts with
  | nil => exact .nil rfl
  | cons first rest ih =>
    obtain ⟨hfirst, hrest⟩ := List.forall_mem_cons.1 h
    cases rest with
    | nil =>
      rw [leavesOf, leavesOf, List.append_nil]
      exact hfirst
    | cons second rest =>
      have hothers : Interleaves ([.code separator] ++
          RowScope.separated separator (piecesOfParts (second :: rest)))
          (leavesOf (second :: rest)) := (ih hrest).skip _ rfl
      exact hfirst.append hothers

end Interleaves

/-- The conditions of a subquery stand in its text with their leaves, if they do by themselves. -/
theorem Subquery.interleaves {s : Subquery} (hfilter : Interleaves s.filter.pieces s.filter.leaves)
    (hhaving : ∀ p, s.having = .noneMatch p → Interleaves p.pieces p.leaves) :
    Interleaves s.pieces s.leaves := by
  obtain ⟨table, aliasName, key, joins, filter, having⟩ := s
  have hselection : params having.selection = [] := by cases having <;> rfl
  have hhead : params (.code "SELECT " :: having.selection ++
      (ColumnRef.mk aliasName key).pieces ++
      [.code " FROM ", .name table, .code " AS ", .name aliasName] ++
      joins.flatMap (fun j => .code " " :: j.pieces)) = [] := by
    rw [params_append, params_joins, params_append, params_append, params, hselection]
    rfl
  have hwhere : Interleaves (if filter.isAlways then [] else .code " WHERE " :: filter.pieces)
      (if filter.isAlways then [] else filter.leaves) := by
    split
    · exact .nil rfl
    · exact hfilter.skip [.code " WHERE "] rfl
  have hrows : ∀ column : ColumnRef, Interleaves (having.pieces column.pieces) having.leaves := by
    intro column
    cases having with
    | absent => exact .nil rfl
    | noneMatch p =>
      have hmatch := (hhaving p rfl).skip [.code " HAVING COALESCE(BOOL_OR("] rfl
      exact (hmatch.skip (.code " GROUP BY " :: column.pieces) rfl).close rfl
    | count counted op n =>
      have hcount := Interleaves.single (.count counted op n) rfl
      exact hcount.skip (.code " GROUP BY " :: column.pieces) rfl
  exact (hwhere.skip _ hhead).append (hrows _)

/-- The text of a predicate goes through its leaves in their order. -/
theorem Predicate.interleaves (p : Predicate) : Interleaves p.pieces p.leaves := by
  induction p using Predicate.nested_induction with
  | leaf a h =>
    have hleaves : a.leaves = [.test a] := by cases a <;> first | rfl | cases h
    rw [hleaves]
    exact .single (.test a) (params_leaf h)
  | all parts ih | any parts ih =>
    exact ((Interleaves.separated ih).skip [.code "("] rfl).close rfl
  | notTrue part ih => exact (ih.skip [.code "("] rfl).close rfl
  | inSet column s hfilter hhaving =>
    have hsubquery := (Subquery.interleaves hfilter hhaving).skip [.code " IN ("] rfl
    exact (hsubquery.skip column.pieces rfl).close rfl

/-! ## Predicates of one shape -/

namespace Predicate

/-- A leaf with nothing in the place of each of its values. A list of values keeps its length. -/
def shapeLeaf : Predicate → Predicate
  | equals column _ => .equals column .null
  | oneOf column values => .oneOf column (values.map fun _ => .null)
  | compare column op _ => .compare column op .null
  | between column _ _ => .between column .null .null
  | like column _ => .like column ""
  | overlaps column _ => .overlaps column []
  | sameElements column _ => .sameElements column []
  | a => a

/-- The predicate with nothing in the place of each of its values. -/
def shape (p : Predicate) : Predicate := p.mapLeaves shapeLeaf fun _ => 0

/-- Two values have one placeholder. -/
theorem sameText_param (v w : Value) : SameText [.param v] [.param w] := ⟨fun _ => rfl, rfl⟩

/-- A leaf is written like the one without its values. -/
theorem pieces_shapeLeaf {a : Predicate} (h : a.isLeaf = true) :
    SameText (shapeLeaf a).pieces a.pieces := by
  have hR := isTextual_sameText
  cases a with
  | always | never | isNull _ => exact hR.refl _
  | equals column value | like column pattern | compare column op value
  | overlaps column values => exact hR.before _ ⟨fun _ => rfl, rfl⟩
  | between column low high => exact hR.before _ ⟨fun _ => rfl, rfl⟩
  | sameElements column values => exact ⟨fun _ => rfl, rfl⟩
  | oneOf column values =>
    cases values with
    | nil => exact hR.refl _
    | cons value values =>
      have hvalues : SameText
          (separated ", " (((value :: values).map fun _ => Value.null).map fun v => [.param v]))
          (separated ", " ((value :: values).map fun v => [.param v])) := by
        rw [List.map_map]
        exact hR.separated ", " fun v _ => sameText_param .null v
      exact hR.after (hR.before _ (hR.cons (.code " IN (") hvalues)) _
  | all _ | any _ | notTrue _ | inSet _ _ => cases h

/-- A predicate and its shape have one text. -/
theorem text_shape (p : Predicate) : p.shape.text = p.text := by
  refine (pieces_mapLeaves isTextual_sameText (fun a => ?_) (fun _ => pieces_shapeLeaf)
    (fun n => sameText_param _ _) p).render_eq
  cases a <;> rfl

end Predicate

/-! ## The correspondence -/

/-- A member of a list of lists that are made one after the other is a member of one of them. -/
theorem getElem?_flatMap_eq_some {α β : Type} {f : α → List β} {xs : List α} {k : Nat} {b : β} :
    (xs.flatMap f)[k]? = some b ↔ ∃ before x after i, xs = before ++ x :: after ∧
      k = (before.flatMap f).length + i ∧ (f x)[i]? = some b := by
  constructor
  · intro h
    induction xs generalizing k with
    | nil => cases h
    | cons x xs ih =>
      rw [List.flatMap_cons] at h
      by_cases hk : k < (f x).length
      · rw [List.getElem?_append_left hk] at h
        exact ⟨[], x, xs, k, rfl, by simp, h⟩
      · rw [List.getElem?_append_right (Nat.le_of_not_lt hk)] at h
        obtain ⟨before, y, after, i, rfl, hi, hy⟩ := ih h
        refine ⟨x :: before, y, after, i, rfl, ?_, hy⟩
        rw [List.flatMap_cons, List.length_append]
        omega
  · rintro ⟨before, x, after, i, rfl, rfl, h⟩
    have hi := (List.getElem?_eq_some_iff.1 h).1
    rw [List.flatMap_append, List.flatMap_cons, List.getElem?_append_right (Nat.le_add_right _ i),
      Nat.add_sub_cancel_left, List.getElem?_append_left hi, h]

/-- A leaf of a predicate stands in its text after the placeholders of the leaves before. -/
theorem Predicate.standsIn {p : Predicate} {before after : List SqlLeaf} {leaf : SqlLeaf}
    (h : p.leaves = before ++ leaf :: after) : leaf.StandsIn p.text (boundBy before) := by
  obtain ⟨front, back, hpieces, hleaf, hfront, hback⟩ := (h ▸ p.interleaves).split
  have hlegible := p.legible
  rw [hpieces] at hlegible
  have hbound : (RowScope.params front).length = boundBy before :=
    congrArg List.length hfront.params_eq
  refine ⟨String.ofList (renderFrom 0 front),
    String.ofList (renderFrom (boundBy before + leaf.values.length) back),
    (RowScope.params back).length, ?_, ?_, ?_, hlegible.rest.rest.placeholders_eq _⟩
  · rw [Predicate.text, render, hpieces, renderFrom_append, renderFrom_append, hbound, hleaf,
      String.ofList_append, String.ofList_append, Nat.zero_add, String.append_assoc]
    rfl
  · rw [hlegible.front.placeholders_eq, hbound]
  · rw [SqlLeaf.textAfter, hlegible.rest.front.placeholders_eq, hleaf]

/-- The placeholders of a predicate's text are numbered from 1 in the order of the text, one for
each value. Each value is one of a leaf, in whose part of the text its placeholder stands: the
leaf's values have the numbers after those of the leaves before it. A predicate of the same shape
has the same text, whatever its values are. -/
theorem Predicate.placeholders_correspond (p : Predicate) :
    placeholders p.text = some (List.range' 1 p.params.length) ∧
      (∀ k value, p.params[k]? = some value ↔ ∃ before leaf after i,
        p.leaves = before ++ leaf :: after ∧ k = boundBy before + i ∧
          leaf.values[i]? = some value) ∧
      (∀ before leaf after, p.leaves = before ++ leaf :: after →
        leaf.StandsIn p.text (boundBy before)) ∧
      ∀ q : Predicate, p.shape = q.shape → p.text = q.text := by
  refine ⟨p.legible.placeholders_eq 0, fun k value => ?_, fun _ _ _ h => standsIn h, fun q h => ?_⟩
  · rw [Predicate.params, p.interleaves.params_eq]
    exact getElem?_flatMap_eq_some
  · calc p.text = p.shape.text := p.text_shape.symm
      _ = q.shape.text := by rw [h]
      _ = q.text := q.text_shape

/-- Grants with some parts, of no region, and with a number of rows between two dates. -/
def dividedGrants (parts : List String) (first last : Value) (number : Int64) : Predicate :=
  .all [.sameElements ⟨"Grants", "$7"⟩ parts, .notTrue (.oneOf ⟨"Grants", "regionId"⟩ []),
    .inSet ⟨"Grants", "id"⟩ ⟨"Grants", "root", "id", [], .between ⟨"root", "startDate"⟩ first last,
      .count ⟨"root", "id"⟩ .ge number⟩]

/-- The number that a count compares with is bound last, after an array that is bound twice and the
ends of a period, and other values leave the text as it is. -/
theorem Predicate.placeholders_dividedGrants :
    placeholders (dividedGrants ["a"] (.int 1) (.int 2) 3).text = some [1, 2, 3, 4, 5] ∧
      (dividedGrants ["a"] (.int 1) (.int 2) 3).params[4]? = some (.int 3) ∧
      SqlLeaf.StandsIn (.count ⟨"root", "id"⟩ .ge 3)
        (dividedGrants ["a"] (.int 1) (.int 2) 3).text 4 ∧
      (dividedGrants ["a"] (.int 1) (.int 2) 3).shape = (dividedGrants [] .null .null 9).shape ∧
      (dividedGrants ["a"] (.int 1) (.int 2) 3).text = (dividedGrants [] .null .null 9).text := by
  obtain ⟨hnumbers, hvalues, hleaves, hshape⟩ :=
    Predicate.placeholders_correspond (dividedGrants ["a"] (.int 1) (.int 2) 3)
  let before : List SqlLeaf := [.test (.sameElements ⟨"Grants", "$7"⟩ ["a"]),
    .test (.oneOf ⟨"Grants", "regionId"⟩ []),
    .test (.between ⟨"root", "startDate"⟩ (.int 1) (.int 2))]
  have hlast : (dividedGrants ["a"] (.int 1) (.int 2) 3).leaves =
      before ++ .count ⟨"root", "id"⟩ .ge 3 :: [] := rfl
  exact ⟨hnumbers, (hvalues 4 (.int 3)).2 ⟨before, _, [], 0, hlast, rfl, rfl⟩,
    hleaves before _ [] hlast, rfl, hshape _ rfl⟩

end RowScope
