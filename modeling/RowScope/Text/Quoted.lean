import RowScope.Text.Visible

/-!
# Quoted text

A quoted text stands between double quotes. Inside, a quote and a backslash follow a backslash; the
tab, the line feed, the carriage return and NUL are written `\t`, `\n`, `\r` and `\0`; any other
character that is not visible is written `\u`, an opening brace, its code point in lower-case
hexadecimal digits, and a closing brace.
-/

namespace RowScope.Text

/-- The characters that stand for `c` inside quotes. -/
def quotedChar (c : Char) : List Char :=
  if c = '\t' then ['\\', 't']
  else if c = '\n' then ['\\', 'n']
  else if c = '\r' then ['\\', 'r']
  else if c = '\x00' then ['\\', '0']
  else if c = '"' then ['\\', '"']
  else if c = '\\' then ['\\', '\\']
  else if isVisible c then [c]
  else ['\\', 'u', '\x7b'] ++ Nat.toDigits 16 c.toNat ++ ['\x7d']

/-- The text between double quotes. -/
def quoted (s : String) : String :=
  String.ofList ('"' :: s.toList.flatMap quotedChar ++ ['"'])

/-- Quoted texts between square brackets, a comma and a space between neighbours. -/
def quotedList (texts : List String) : String :=
  "[" ++ String.intercalate ", " (texts.map quoted) ++ "]"

end RowScope.Text
