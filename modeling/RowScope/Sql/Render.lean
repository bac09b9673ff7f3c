import RowScope.Sql.Predicate

/-!
# SQL text

A predicate is written as a list of pieces: code that does not depend on the request, names in
double quotes, and values. In the text a value is the placeholder `$n` of its number among the
values, counted from 1, so the text does not depend on the values at all.
-/

namespace RowScope

/-- A piece of an SQL text. -/
inductive SqlPiece where
  /-- Keywords, operators, punctuation and spaces. -/
  | code (text : String)
  /-- A name. -/
  | name (text : String)
  /-- A value. -/
  | param (value : Value)
deriving DecidableEq

/-- A name in double quotes, with the quotes inside written twice. -/
def quoteName (s : String) : List Char :=
  '"' :: s.toList.flatMap (fun c => if c = '"' then ['"', '"'] else [c]) ++ ['"']

/-- A name in double quotes as a text. -/
def quotedName (s : String) : String := String.ofList (quoteName s)

/-! ## Pieces -/

/-- A column with its alias. -/
def ColumnRef.pieces (c : ColumnRef) : List SqlPiece :=
  [.name c.aliasName, .code ".", .name c.column]

/-- The keywords of a join. -/
def JoinKind.code : JoinKind → String
  | inner => "INNER JOIN "
  | left => "LEFT JOIN "

/-- A join. -/
def JoinClause.pieces (j : JoinClause) : List SqlPiece :=
  [.code j.kind.code, .name j.table, .code " AS ", .name j.aliasName, .code " ON "] ++
    (ColumnRef.mk j.aliasName j.onColumn).pieces ++ .code " = " :: j.other.pieces

/-- The operator of a comparison. -/
def CompareOp.symbol : CompareOp → String
  | eq => "="
  | lt => "<"
  | le => "<="
  | gt => ">"
  | ge => ">="

/-- Some lists of pieces with code between neighbours. -/
def separated (separator : String) : List (List SqlPiece) → List SqlPiece
  | [] => []
  | [pieces] => pieces
  | pieces :: rest => pieces ++ .code separator :: separated separator rest

mutual

/-- A predicate. -/
def Predicate.pieces : Predicate → List SqlPiece
  | .always => [.code "TRUE"]
  | .never => [.code "FALSE"]
  | .equals column value => column.pieces ++ [.code " = ", .param value]
  | .oneOf _ [] => [.code "FALSE"]
  | .oneOf column (value :: values) =>
    column.pieces ++ .code " IN (" ::
      separated ", " ((value :: values).map fun v => [.param v]) ++ [.code ")"]
  | .compare column op value =>
    column.pieces ++ [.code " ", .code op.symbol, .code " ", .param value]
  | .between column low high =>
    column.pieces ++ [.code " BETWEEN ", .param low, .code " AND ", .param high]
  | .like column pattern => column.pieces ++ [.code " ILIKE ", .param (.text pattern)]
  | .overlaps column values =>
    column.pieces ++ [.code " && ", .param (.textArray values), .code "::text[]"]
  | .sameElements column values =>
    .code "(" :: column.pieces ++
      [.code " @> ", .param (.textArray values), .code "::text[] AND "] ++ column.pieces ++
      [.code " <@ ", .param (.textArray values), .code "::text[])"]
  | .isNull column => column.pieces ++ [.code " IS NULL"]
  | .all parts => .code "(" :: separated " AND " (piecesOfParts parts) ++ [.code ")"]
  | .any parts => .code "(" :: separated " OR " (piecesOfParts parts) ++ [.code ")"]
  | .notTrue part => .code "(" :: part.pieces ++ [.code ") IS NOT TRUE"]
  | .inSet column subquery =>
    column.pieces ++ .code " IN (" :: subquery.pieces ++ [.code ")"]

/-- The pieces of each predicate of a list. -/
def piecesOfParts : List Predicate → List (List SqlPiece)
  | [] => []
  | part :: parts => part.pieces :: piecesOfParts parts

/-- A subquery. Without a condition on the rows of a key it selects distinct keys, and with one it
groups the rows by key. -/
def Subquery.pieces : Subquery → List SqlPiece
  | ⟨table, aliasName, key, joins, filter, having⟩ =>
    let keyPieces := (ColumnRef.mk aliasName key).pieces
    .code "SELECT " :: having.selection ++ keyPieces ++
      [.code " FROM ", .name table, .code " AS ", .name aliasName] ++
      joins.flatMap (fun j => .code " " :: j.pieces) ++
      (if filter.isAlways then [] else .code " WHERE " :: filter.pieces) ++
      having.pieces keyPieces

/-- What stands before the key of a selection. -/
def Having.selection : Having → List SqlPiece
  | .absent => [.code "DISTINCT "]
  | .noneMatch _ | .count _ _ _ => []

/-- A condition on the rows of a key. -/
def Having.pieces (keyPieces : List SqlPiece) : Having → List SqlPiece
  | .absent => []
  | .noneMatch predicate =>
    .code " GROUP BY " :: keyPieces ++
      .code " HAVING COALESCE(BOOL_OR(" :: predicate.pieces ++ [.code "), FALSE) = FALSE"]
  | .count column op value =>
    .code " GROUP BY " :: keyPieces ++
      .code " HAVING COUNT(DISTINCT " :: column.pieces ++
        [.code ") ", .code op.symbol, .code " ", .param (.int value)]

end

/-! ## Text and parameters -/

/-- The text of some pieces, where so many values have been bound already. -/
def renderFrom (bound : Nat) : List SqlPiece → List Char
  | [] => []
  | .code text :: rest => text.toList ++ renderFrom bound rest
  | .name text :: rest => quoteName text ++ renderFrom bound rest
  | .param _ :: rest => '$' :: Number.natText (bound + 1) ++ renderFrom (bound + 1) rest

/-- The text of some pieces. -/
def render (pieces : List SqlPiece) : String := String.ofList (renderFrom 0 pieces)

/-- The values of some pieces in the order of their placeholders. -/
def params : List SqlPiece → List Value
  | [] => []
  | .param value :: rest => value :: params rest
  | .code _ :: rest | .name _ :: rest => params rest

/-- The text of a column. -/
def ColumnRef.text (c : ColumnRef) : String := render c.pieces

/-- The text of a join. -/
def JoinClause.text (j : JoinClause) : String := render j.pieces

/-- The text of a predicate. -/
def Predicate.text (p : Predicate) : String := render p.pieces

/-- The values that the placeholders of a predicate's text stand for. -/
def Predicate.params (p : Predicate) : List Value := RowScope.params p.pieces

end RowScope
