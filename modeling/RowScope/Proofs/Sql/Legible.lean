import Mathlib.Data.List.Chain
import RowScope.Proofs.Sql.Lexer
import RowScope.Sql.Render

/-!
# Legible pieces

The code between the names and the values of a rendered predicate is taken from a fixed list
(`sqlCodes`), and wherever two pieces of the text meet, no token crosses the border. Such pieces are
`Legible`, and the pieces of every predicate are (`Predicate.legible`), whatever characters the
names and the values have.
-/

namespace RowScope

open Lexer (CharKind charKind lex lexFrom)

/-! ## Pieces that can be told apart -/

/-- All code that stands between names and values. -/
def sqlCodes : List String :=
  ["TRUE", "FALSE", ".", "INNER JOIN ", "LEFT JOIN ", " AS ", " ON ", " = ", " IN (", ", ", ")",
    " ", "=", "<", "<=", ">", ">=", " BETWEEN ", " AND ", " ILIKE ", " && ", "::text[]", "(",
    " @> ", "::text[] AND ", " <@ ", "::text[])", " IS NULL", " OR ", ") IS NOT TRUE", "SELECT ",
    "DISTINCT ", " FROM ", " WHERE ", " GROUP BY ", " HAVING COALESCE(BOOL_OR(",
    "), FALSE) = FALSE", " HAVING COUNT(DISTINCT ", ") "]

namespace SqlPiece

/-- The kind of the first character of a piece. -/
def firstKind : SqlPiece → CharKind
  | code text => (text.toList.head?.map charKind).getD .single
  | name _ => .quote
  | param _ => .word

/-- The kind of the last character of a piece. -/
def lastKind : SqlPiece → CharKind
  | code text => Lexer.lastKind .single text.toList
  | name _ => .quote
  | param _ => .word

/-- No token goes on from a piece to the next one. -/
def Borders (x y : SqlPiece) : Prop := x.lastKind = .single ∨ x.lastKind ≠ y.firstKind

end SqlPiece

open SqlPiece (Borders)

/-- Pieces with known code, of which no two run into each other. -/
structure Legible (pieces : List SqlPiece) : Prop where
  /-- The code is known. -/
  codes : ∀ text, .code text ∈ pieces → text ∈ sqlCodes
  /-- Neighbours do not run into each other. -/
  borders : pieces.IsChain Borders

namespace Legible

variable {xs ys : List SqlPiece} {text : String}

theorem nil : Legible [] := ⟨fun _ h => absurd h List.not_mem_nil, .nil⟩

/-- Known code is legible alone. -/
theorem code (h : text ∈ sqlCodes) : Legible [.code text] where
  codes other hmem := by
    cases List.mem_singleton.1 hmem
    exact h
  borders := .singleton _

/-- A value is legible alone. -/
theorem param (v : Value) : Legible [.param v] where
  codes _ hmem := nomatch List.mem_singleton.1 hmem
  borders := .singleton _

/-- A name is legible alone. -/
theorem name (s : String) : Legible [.name s] where
  codes _ hmem := nomatch List.mem_singleton.1 hmem
  borders := .singleton _

/-- A piece of legible pieces is legible alone. -/
theorem singleton {piece : SqlPiece} (h : Legible xs) (hmem : piece ∈ xs) : Legible [piece] where
  codes text htext := h.codes text (List.mem_singleton.1 htext ▸ hmem)
  borders := .singleton _

/-- Legible pieces are legible without the first one. -/
theorem tail {piece : SqlPiece} (h : Legible (piece :: xs)) : Legible xs where
  codes text htext := h.codes text (List.mem_cons_of_mem piece htext)
  borders := h.borders.tail

/-- The front of legible pieces is legible. -/
theorem front (h : Legible (xs ++ ys)) : Legible xs where
  codes text htext := h.codes text (List.mem_append_left ys htext)
  borders := (List.isChain_append.1 h.borders).1

/-- The rest of legible pieces is legible. -/
theorem rest (h : Legible (xs ++ ys)) : Legible ys where
  codes text htext := h.codes text (List.mem_append_right xs htext)
  borders := (List.isChain_append.1 h.borders).2.1

theorem append (hx : Legible xs) (hy : Legible ys)
    (hborder : ∀ x ∈ xs.getLast?, ∀ y ∈ ys.head?, Borders x y) : Legible (xs ++ ys) where
  codes text hmem := (List.mem_append.1 hmem).elim (hx.codes text) (hy.codes text)
  borders := List.isChain_append.2 ⟨hx.borders, hy.borders, hborder⟩

/-- Code that ends in a character of its own may stand before anything. -/
theorem before (hcode : text ∈ sqlCodes) (hlast : (SqlPiece.code text).lastKind = .single)
    (hy : Legible ys) : Legible (.code text :: ys) := by
  refine (code hcode).append hy fun x hx y _ => .inl ?_
  cases hx
  exact hlast

/-- Code that begins with a character of its own may stand after anything. -/
theorem after (hx : Legible xs) (hfirst : (SqlPiece.code text).firstKind = .single)
    (hy : Legible (.code text :: ys)) : Legible (xs ++ .code text :: ys) := by
  refine hx.append hy fun x _ y hy => ?_
  cases hy
  rw [Borders, hfirst]
  exact Decidable.em _

/-- Code that does not begin with a letter or a digit may stand after a value. -/
theorem bound (v : Value) (hfirst : (SqlPiece.code text).firstKind ≠ .word)
    (hy : Legible (.code text :: ys)) : Legible (.param v :: .code text :: ys) := by
  refine (param v).append hy fun x hx y hy => .inr ?_
  cases hx
  cases hy
  exact hfirst.symm

/-- Legible lists of pieces with code between them. -/
theorem separated {separator : String} (hcode : separator ∈ sqlCodes)
    (hfirst : (SqlPiece.code separator).firstKind = .single)
    (hlast : (SqlPiece.code separator).lastKind = .single) {parts : List (List SqlPiece)}
    (h : ∀ pieces ∈ parts, Legible pieces) : Legible (separated separator parts) := by
  fun_induction RowScope.separated separator parts with
  | case1 => exact nil
  | case2 pieces => exact h pieces List.mem_cons_self
  | case3 pieces rest _ ih =>
    refine (h pieces List.mem_cons_self).after hfirst (before hcode hlast (ih ?_))
    exact fun pieces hmem => h pieces (List.mem_cons_of_mem _ hmem)

end Legible

/-- A column is legible. -/
theorem ColumnRef.legible (c : ColumnRef) : Legible c.pieces :=
  (Legible.name c.aliasName).after (by decide) (.before (by decide) (by decide) (.name c.column))

/-- A join is legible. -/
theorem JoinClause.legible (j : JoinClause) : Legible j.pieces := by
  have kind : j.kind.code ∈ sqlCodes ∧ (SqlPiece.code j.kind.code).lastKind = .single := by
    cases j.kind <;> decide
  have columns : Legible ((ColumnRef.mk j.aliasName j.onColumn).pieces ++
      .code " = " :: j.other.pieces) :=
    (ColumnRef.legible _).after (by decide) (.before (by decide) (by decide) j.other.legible)
  refine Legible.before kind.1 kind.2 ?_
  refine (Legible.name j.table).after (by decide) (.before (by decide) (by decide) ?_)
  exact (Legible.name j.aliasName).after (by decide) (.before (by decide) (by decide) columns)

/-- Joins after legible pieces are legible. -/
theorem Legible.joins {xs : List SqlPiece} (hx : Legible xs) (joins : List JoinClause) :
    Legible (xs ++ joins.flatMap fun j => .code " " :: j.pieces) := by
  induction joins generalizing xs with
  | nil => simpa using hx
  | cons j joins ih =>
    rw [List.flatMap_cons, ← List.append_assoc]
    exact ih (hx.after (by decide) (.before (by decide) (by decide) j.legible))

/-- The operators of comparisons are known code. -/
theorem CompareOp.symbol_mem (op : CompareOp) : op.symbol ∈ sqlCodes := by
  cases op <;> decide

/-- An operator and a value are legible. -/
theorem CompareOp.legible (op : CompareOp) (v : Value) :
    Legible [.code op.symbol, .code " ", .param v] :=
  (Legible.code op.symbol_mem).after (by decide) (.before (by decide) (by decide) (.param v))

mutual

/-- A predicate is legible. -/
theorem Predicate.legible : (p : Predicate) → Legible p.pieces
  | .always | .never | .oneOf _ [] => .code (by decide)
  | .equals column value | .like column value =>
    column.legible.after (by decide) (.before (by decide) (by decide) (.param _))
  | .oneOf column (value :: values) => by
    have values : Legible (separated ", " ((value :: values).map fun v => [.param v])) := by
      refine .separated (by decide) (by decide) (by decide) fun pieces h => ?_
      obtain ⟨v, -, rfl⟩ := List.mem_map.1 h
      exact .param v
    exact (column.legible.after (by decide) (.before (by decide) (by decide) values)).after
      (by decide) (.code (by decide))
  | .compare column op value =>
    column.legible.after (by decide) (.before (by decide) (by decide) (op.legible value))
  | .between column low high =>
    column.legible.after (by decide) (.before (by decide) (by decide)
      (.bound low (by decide) (.before (by decide) (by decide) (.param high))))
  | .overlaps column values =>
    column.legible.after (by decide) (.before (by decide) (by decide)
      (.bound _ (by decide) (.code (by decide))))
  | .sameElements column values => by
    have subset : Legible (column.pieces ++
        [.code " <@ ", .param (.textArray values), .code "::text[])"]) :=
      column.legible.after (by decide) (.before (by decide) (by decide)
        (.bound _ (by decide) (.code (by decide))))
    have both : Legible (column.pieces ++ .code " @> " :: .param (.textArray values) ::
        .code "::text[] AND " :: (column.pieces ++
          [.code " <@ ", .param (.textArray values), .code "::text[])"])) :=
      column.legible.after (by decide) (.before (by decide) (by decide)
        (.bound _ (by decide) (.before (by decide) (by decide) subset)))
    simpa [Predicate.pieces] using Legible.before (by decide) (by decide) both
  | .isNull column => column.legible.after (by decide) (.code (by decide))
  | .all parts | .any parts =>
    (Legible.before (by decide) (by decide)
      (.separated (by decide) (by decide) (by decide) (legible_parts parts))).after (by decide)
      (.code (by decide))
  | .notTrue part =>
    (Legible.before (by decide) (by decide) part.legible).after (by decide) (.code (by decide))
  | .inSet column subquery =>
    (column.legible.after (by decide) (.before (by decide) (by decide) subquery.legible)).after
      (by decide) (.code (by decide))

/-- The predicates of a list are legible. -/
theorem legible_parts : (parts : List Predicate) → ∀ pieces ∈ piecesOfParts parts, Legible pieces
  | [] => fun _ h => absurd h List.not_mem_nil
  | part :: parts => List.forall_mem_cons.2 ⟨part.legible, legible_parts parts⟩

/-- A subquery is legible. -/
theorem Subquery.legible : (s : Subquery) → Legible s.pieces
  | ⟨table, aliasName, key, joins, filter, having⟩ => by
    have hkey := ColumnRef.legible ⟨aliasName, key⟩
    have source : Legible [.code " FROM ", .name table, .code " AS ", .name aliasName] :=
      .before (by decide) (by decide) ((Legible.name table).after (by decide)
        (.before (by decide) (by decide) (.name aliasName)))
    have selected : Legible (.code "SELECT " :: having.selection ++
        (ColumnRef.mk aliasName key).pieces ++
        [.code " FROM ", .name table, .code " AS ", .name aliasName]) := by
      refine Legible.after ?_ (by decide) source
      cases having with
      | absent => exact .before (by decide) (by decide) (.before (by decide) (by decide) hkey)
      | noneMatch _ | count _ _ _ => exact .before (by decide) (by decide) hkey
    refine having.legible ?_ hkey
    split
    · simpa using selected.joins joins
    · exact (selected.joins joins).after (by decide) (.before (by decide) (by decide)
        filter.legible)

/-- A condition on the rows of a key is legible after legible pieces. -/
theorem Having.legible : (h : Having) → {xs key : List SqlPiece} → Legible xs → Legible key →
    Legible (xs ++ h.pieces key)
  | .absent, _, _, hx, _ => by simpa [Having.pieces] using hx
  | .noneMatch predicate, _, key, hx, hkey => by
    have matched : Legible (.code " HAVING COALESCE(BOOL_OR(" :: predicate.pieces ++
        [.code "), FALSE) = FALSE"]) :=
      (Legible.before (by decide) (by decide) predicate.legible).after (by decide)
        (.code (by decide))
    have grouped : Legible (.code " GROUP BY " :: (key ++ .code " HAVING COALESCE(BOOL_OR(" ::
        predicate.pieces ++ [.code "), FALSE) = FALSE"])) :=
      .before (by decide) (by decide) (by simpa using hkey.after (by decide) matched)
    simpa [Having.pieces] using hx.after (by decide) grouped
  | .count column op value, _, key, hx, hkey => by
    have counted : Legible (.code " HAVING COUNT(DISTINCT " :: (column.pieces ++
        [.code ") ", .code op.symbol, .code " ", .param (.int value)])) :=
      .before (by decide) (by decide) (column.legible.after (by decide)
        (.before (by decide) (by decide) (op.legible _)))
    have grouped : Legible (.code " GROUP BY " :: (key ++ .code " HAVING COUNT(DISTINCT " ::
        (column.pieces ++ [.code ") ", .code op.symbol, .code " ", .param (.int value)]))) :=
      .before (by decide) (by decide) (hkey.after (by decide) counted)
    simpa [Having.pieces] using hx.after (by decide) grouped

end

end RowScope
