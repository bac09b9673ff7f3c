/-!
# Escapes

In a string a character may be written as a backslash and a letter or sign that stands for it.
-/

namespace RowScope.Json

/-- The characters that have an escape of two characters, with the second one of it. -/
def shortEscapes : List (Char × Char) :=
  [('"', '"'), ('\\', '\\'), ('\n', 'n'), ('\t', 't'), ('\r', 'r'), ('\x08', 'b'), ('\x0c', 'f')]

end RowScope.Json
