import RowScope.Sanitize
import RowScope.Sql.Predicate

/-!
# Comparisons with safe values

The predicates that compare a column with the patterns, texts, integers or dates of a filter value.
A list of alternatives is met by any one of them.
-/

namespace RowScope

open RowScope.Calendar (Date)

namespace ColumnRef

/-- The column matches one of some patterns. -/
def likeAny (column : ColumnRef) (patterns : List String) : Predicate :=
  .disj (patterns.map (Predicate.like column))

/-- The column has one of some values. -/
def among (column : ColumnRef) : List Value → Predicate
  | [value] => .equals column value
  | values => .oneOf column values

/-- The column has one of some texts. -/
def amongTexts (column : ColumnRef) (texts : List String) : Predicate :=
  column.among (texts.map Value.text)

/-- The column is one of some integers. -/
def amongInts (column : ColumnRef) (integers : List Int64) : Predicate :=
  column.among (integers.map Value.int)

/-- The column is on a date or before it. -/
def onOrBefore (column : ColumnRef) (last : Date) : Predicate := .compare column .le (.date last)

/-- The column is on a date or after it. -/
def onOrAfter (column : ColumnRef) (first : Date) : Predicate := .compare column .ge (.date first)

/-- The column is in a window of dates. -/
def inWindow (column : ColumnRef) : DateWindow → Predicate
  | .before last => column.onOrBefore last
  | .after first => column.onOrAfter first
  | .within first last => .between column (.date first) (.date last)

/-- The period from one column to another has a date in common with a window. -/
def periodMeets (start stop : ColumnRef) : DateWindow → Predicate
  | .before last => start.onOrBefore last
  | .after first => stop.onOrAfter first
  | .within first last => .conj [start.onOrBefore last, stop.onOrAfter first]

end ColumnRef

end RowScope
