/-!
# ASCII letters

Names are compared without regard to the case of the letters `A` to `Z`; every other character is
compared as it is.
-/

namespace RowScope.Text

/-- The text with the letters `A` to `Z` in lower case. -/
def lower (s : String) : String := String.ofList (s.toList.map Char.toLower)

/-- Whether two texts agree but for the case of the letters `A` to `Z`. -/
def sameLetters (s t : String) : Bool := lower s == lower t

end RowScope.Text
