import RowScope.Proofs.Sql.Names
import RowScope.Proofs.Sql.Node

/-!
# Predicates with other leaves

`Predicate.mapLeaves` puts other leaves in the places of the leaves of a predicate, those inside of
subqueries included, and other numbers in the places of the numbers that counts compare with. If the
new leaves are written like the old ones, in a sense that concatenation keeps (`IsTextual`), then so
is the whole predicate (`pieces_mapLeaves`). Two such senses are used: one text with as many values
(`SameText`), and one text with the same values (`SameWriting`).
-/

namespace RowScope

/-! ## Relations between pieces -/

/-- The values of two lists of pieces follow each other. -/
theorem params_append (xs ys : List SqlPiece) : params (xs ++ ys) = params xs ++ params ys := by
  rw [← slots_tokens, tokens_append, slots_append, slots_tokens, slots_tokens]

/-- The text of two lists of pieces: the numbers of the second one go on after the first one. -/
theorem renderFrom_append (bound : Nat) (xs ys : List SqlPiece) :
    renderFrom bound (xs ++ ys) =
      renderFrom bound xs ++ renderFrom (bound + (params xs).length) ys := by
  induction xs generalizing bound with
  | nil => rfl
  | cons x xs ih =>
    have hlength : bound + (params (x :: xs)).length =
        bound + (params [x]).length + (params xs).length := by
      rw [← List.singleton_append, params_append, List.length_append, Nat.add_assoc]
    rw [List.cons_append, renderFrom_cons, ih, renderFrom_cons bound x xs, List.append_assoc,
      hlength]

/-- A relation of pieces that each list has to itself and that concatenation keeps. -/
structure IsTextual (R : List SqlPiece → List SqlPiece → Prop) : Prop where
  /-- Each list is related to itself. -/
  refl : ∀ xs, R xs xs
  /-- Related lists may follow related lists. -/
  append : ∀ {xs xs' ys ys'}, R xs xs' → R ys ys' → R (xs ++ ys) (xs' ++ ys')

/-- The pieces have one text, after any number of values, and bind as many values. -/
structure SameText (xs ys : List SqlPiece) : Prop where
  /-- The text is the same. -/
  text : ∀ bound, renderFrom bound xs = renderFrom bound ys
  /-- The number of values is the same. -/
  size : (params xs).length = (params ys).length

/-- The pieces have one text, after any number of values, and bind the same values. -/
structure SameWriting (xs ys : List SqlPiece) : Prop where
  /-- The text is the same. -/
  text : ∀ bound, renderFrom bound xs = renderFrom bound ys
  /-- The values are the same. -/
  values : params xs = params ys

/-- Having one text is a sense that concatenation keeps. -/
theorem isTextual_sameText : IsTextual SameText where
  refl _ := ⟨fun _ => rfl, rfl⟩
  append hx hy :=
    ⟨fun bound => by rw [renderFrom_append, renderFrom_append, hx.text, hx.size, hy.text],
      by rw [params_append, params_append, List.length_append, List.length_append, hx.size,
        hy.size]⟩

/-- Having one text and the same values is a sense that concatenation keeps. -/
theorem isTextual_sameWriting : IsTextual SameWriting where
  refl _ := ⟨fun _ => rfl, rfl⟩
  append hx hy :=
    ⟨fun bound => by rw [renderFrom_append, renderFrom_append, hx.text, hx.values, hy.text],
      by rw [params_append, params_append, hx.values, hy.values]⟩

namespace IsTextual

variable {R : List SqlPiece → List SqlPiece → Prop} (hR : IsTextual R)
include hR

/-- The same pieces may stand before related lists. -/
theorem before (xs : List SqlPiece) {ys ys' : List SqlPiece} (h : R ys ys') :
    R (xs ++ ys) (xs ++ ys') :=
  hR.append (hR.refl xs) h

/-- One piece may stand before related lists. -/
theorem cons (x : SqlPiece) {ys ys' : List SqlPiece} (h : R ys ys') : R (x :: ys) (x :: ys') :=
  hR.before [x] h

/-- The same pieces may stand after related lists. -/
theorem after {xs xs' : List SqlPiece} (h : R xs xs') (ys : List SqlPiece) :
    R (xs ++ ys) (xs' ++ ys) :=
  hR.append h (hR.refl ys)

/-- Related pieces may stand between separators. -/
theorem separated {α : Type} (separator : String) {write other : α → List SqlPiece} {items : List α}
    (h : ∀ item ∈ items, R (write item) (other item)) :
    R (separated separator (items.map write)) (separated separator (items.map other)) := by
  induction items with
  | nil => exact hR.refl _
  | cons first rest ih =>
    obtain ⟨hfirst, hrest⟩ := List.forall_mem_cons.1 h
    cases rest with
    | nil => exact hfirst
    | cons second rest => exact hR.append hfirst (hR.cons _ (ih hrest))

end IsTextual

/-! ## Other leaves -/

mutual

/-- The predicate with other leaves and with other numbers in its counts. -/
def Predicate.mapLeaves (f : Predicate → Predicate) (g : Int64 → Int64) : Predicate → Predicate
  | .all parts => .all (mapLeavesOf f g parts)
  | .any parts => .any (mapLeavesOf f g parts)
  | .notTrue part => .notTrue (part.mapLeaves f g)
  | .inSet column s => .inSet column (s.mapLeaves f g)
  | leaf => f leaf

/-- Some predicates with other leaves. -/
def mapLeavesOf (f : Predicate → Predicate) (g : Int64 → Int64) : List Predicate → List Predicate
  | [] => []
  | part :: parts => part.mapLeaves f g :: mapLeavesOf f g parts

/-- The subquery with other leaves in its conditions. A condition that every row meets is kept. -/
def Subquery.mapLeaves (f : Predicate → Predicate) (g : Int64 → Int64) : Subquery → Subquery
  | ⟨table, aliasName, key, joins, filter, having⟩ =>
    ⟨table, aliasName, key, joins, filter.mapLeaves f g, having.mapLeaves f g⟩

/-- The condition on the rows of a key with other leaves. -/
def Having.mapLeaves (f : Predicate → Predicate) (g : Int64 → Int64) : Having → Having
  | .absent => .absent
  | .noneMatch predicate => .noneMatch (predicate.mapLeaves f g)
  | .count column op value => .count column op (g value)

end

variable {f : Predicate → Predicate} {g : Int64 → Int64}

/-- Other leaves are put into each of some predicates. -/
theorem mapLeavesOf_eq_map (parts : List Predicate) :
    mapLeavesOf f g parts = parts.map (Predicate.mapLeaves f g) := by
  induction parts with
  | nil => rfl
  | cons part parts ih => rw [mapLeavesOf, ih, List.map_cons]

namespace Predicate

/-- A leaf is replaced by its image. -/
theorem mapLeaves_leaf {a : Predicate} (h : a.isLeaf = true) : a.mapLeaves f g = f a := by
  cases a <;> first | rfl | cases h

/-- Leaves that are not turned into `always`, and `always` itself, leave a subquery's condition to
be written or not. -/
theorem isAlways_mapLeaves (hf : ∀ a, (f a).isAlways = a.isAlways) (p : Predicate) :
    (p.mapLeaves f g).isAlways = p.isAlways := by
  cases p <;> first | rfl | exact hf _

variable {R : List SqlPiece → List SqlPiece → Prop}

/-- A subquery is written like the one with the conditions of another. -/
theorem pieces_subquery (hR : IsTextual R) (hf : ∀ a, (f a).isAlways = a.isAlways)
    (hg : ∀ n, R [.param (.int (g n))] [.param (.int n)]) {s : Subquery}
    (hfilter : R (s.filter.mapLeaves f g).pieces s.filter.pieces)
    (hhaving : ∀ p, s.having = .noneMatch p → R (p.mapLeaves f g).pieces p.pieces) :
    R (s.mapLeaves f g).pieces s.pieces := by
  obtain ⟨table, aliasName, key, joins, filter, having⟩ := s
  have hselection : (having.mapLeaves f g).selection = having.selection := by cases having <;> rfl
  have hwhere : R
      (if (filter.mapLeaves f g).isAlways then []
        else .code " WHERE " :: (filter.mapLeaves f g).pieces)
      (if filter.isAlways then [] else .code " WHERE " :: filter.pieces) := by
    rw [isAlways_mapLeaves hf]
    split
    · exact hR.refl []
    · exact hR.cons _ hfilter
  have hrows : ∀ keyPieces, R ((having.mapLeaves f g).pieces keyPieces)
      (having.pieces keyPieces) := by
    intro keyPieces
    cases having with
    | absent => exact hR.refl []
    | noneMatch p => exact hR.after (hR.before _ (hR.cons _ (hhaving p rfl))) _
    | count column op n =>
      exact hR.before _ (hR.before [.code ") ", .code op.symbol, .code " "] (hg n))
  rw [Subquery.mapLeaves, Subquery.pieces, Subquery.pieces, hselection]
  exact hR.append (hR.before _ hwhere) (hrows _)

/-- A predicate is written like the one whose leaves are written like its own. -/
theorem pieces_mapLeaves (hR : IsTextual R) (hf : ∀ a, (f a).isAlways = a.isAlways)
    (hpieces : ∀ a, a.isLeaf = true → R (f a).pieces a.pieces)
    (hg : ∀ n, R [.param (.int (g n))] [.param (.int n)]) (p : Predicate) :
    R (p.mapLeaves f g).pieces p.pieces := by
  have connective : ∀ (separator : String) {parts : List Predicate},
      (∀ part ∈ parts, R (part.mapLeaves f g).pieces part.pieces) →
      R (.code "(" :: separated separator (piecesOfParts (mapLeavesOf f g parts)) ++ [.code ")"])
        (.code "(" :: separated separator (piecesOfParts parts) ++ [.code ")"]) := by
    intro separator parts hparts
    rw [mapLeavesOf_eq_map, piecesOfParts_eq, piecesOfParts_eq, List.map_map]
    exact hR.after (hR.cons _ (hR.separated separator hparts)) _
  induction p using nested_induction with
  | leaf a h =>
    rw [mapLeaves_leaf h]
    exact hpieces a h
  | all parts ih => exact connective " AND " ih
  | any parts ih => exact connective " OR " ih
  | notTrue part ih => exact hR.after (hR.cons _ ih) _
  | inSet column s hfilter hhaving =>
    exact hR.after (hR.before column.pieces
      (hR.cons (.code " IN (") (pieces_subquery hR hf hg hfilter hhaving))) _

end Predicate

/-- Pieces with one text are rendered the same. -/
theorem SameText.render_eq {xs ys : List SqlPiece} (h : SameText xs ys) : render xs = render ys :=
  congrArg String.ofList (h.text 0)

/-- Pieces with one text and the same values are rendered the same. -/
theorem SameWriting.render_eq {xs ys : List SqlPiece} (h : SameWriting xs ys) :
    render xs = render ys :=
  congrArg String.ofList (h.text 0)

end RowScope
