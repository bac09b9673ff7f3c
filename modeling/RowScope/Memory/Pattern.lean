import RowScope.Text.Lowercase

/-!
# Patterns

In a pattern `%` stands for any text, `_` for any character, and a backslash makes the character
after it stand for itself; at the end of the pattern a backslash stands for itself. Letters match in
either case.
-/

namespace RowScope

/-- An element of a pattern. -/
inductive PatternItem where
  /-- Any text, the empty one included. -/
  | anyText
  /-- Any character. -/
  | anyChar
  /-- A character in either case. -/
  | literal (c : Char)
deriving DecidableEq, Repr

/-- The elements of a pattern. -/
def patternItems : List Char → List PatternItem
  | [] => []
  | '%' :: rest => .anyText :: patternItems rest
  | '_' :: rest => .anyChar :: patternItems rest
  | ['\\'] => [.literal '\\']
  | '\\' :: c :: rest => .literal c :: patternItems rest
  | c :: rest => .literal c :: patternItems rest

/-- For each position whether an earlier one, or the position itself, is reached. -/
def reachedSince : Bool → List Bool → List Bool
  | _, [] => []
  | before, here :: rest => (before || here) :: reachedSince (before || here) rest

/-- The positions of a text, in lower case, that an element reaches from some positions. The list of
positions has one entry more than the text. -/
def PatternItem.advance (text : List Char) (reached : List Bool) : PatternItem → List Bool
  | anyText => reachedSince false reached
  | anyChar => false :: reached.zipWith (fun here _ => here) text
  | literal c =>
    let folded := Text.lowerFirst c
    false :: reached.zipWith (fun here d => here && d == folded) text

/-- Whether some elements match a text as a whole. -/
def matchesItems (text : List Char) (items : List PatternItem) : Bool :=
  let start := true :: text.map fun _ => false
  (items.foldl (PatternItem.advance text) start).getLastD false

/-- Whether a text matches a pattern, in letters of either case. -/
def matchesPattern (text pattern : String) : Bool :=
  matchesItems (text.toList.map Text.lowerFirst) (patternItems pattern.toList)

end RowScope
