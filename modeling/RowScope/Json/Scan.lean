import RowScope.Json.Document
import RowScope.Json.Escape

/-!
# Strings, numbers and words in a text

Each scanner is given the characters from where the thing begins. It answers with what it found and,
if the text still is JSON there, with the characters that follow.
-/

namespace RowScope.Json

/-- The characters between the things of a text. -/
def isSpace (c : Char) : Bool := c == ' ' || c == '\n' || c == '\t' || c == '\r'

/-- The characters after the space. -/
def dropSpace (cs : List Char) : List Char := cs.dropWhile isSpace

/-! ## Strings -/

/-- A piece of a string: a character, or the code unit of a `\u` escape. -/
inductive Piece where
  | char (c : Char)
  | unit (n : Nat)
deriving DecidableEq, Repr

/-- The value of a hexadecimal digit. -/
def hexDigit? (c : Char) : Option Nat :=
  if c.isDigit then some (c.toNat - '0'.toNat)
  else if 'a' ≤ c ∧ c ≤ 'f' then some (c.toNat - 'a'.toNat + 10)
  else if 'A' ≤ c ∧ c ≤ 'F' then some (c.toNat - 'A'.toNat + 10)
  else none

/-- The code unit that four hexadecimal digits write. -/
def codeUnit? (a b c d : Char) : Option Nat := do
  return (((← hexDigit? a) * 16 + (← hexDigit? b)) * 16 + (← hexDigit? c)) * 16 + (← hexDigit? d)

/-- What is wrong with an escape `\u` that fewer than four characters follow: the text counts as
ended if they have fewer than four bytes. -/
def escapeFault (cs : List Char) : Fault :=
  if (String.ofList (cs.take 4)).utf8ByteSize < 4 then .ended else .malformed

/-- The character that a backslash and `c` stand for. A slash may be escaped but need not be. -/
def escaped? (c : Char) : Option Char :=
  if c = '/' then some '/' else (shortEscapes.find? fun e => e.2 = c).map Prod.fst

/-- The pieces of a string up to its closing quote, and the characters after that quote or what is
wrong. -/
def scanPieces : List Char → List Piece × Except Fault (List Char)
  | [] => ([], .error .ended)
  | '"' :: cs => ([], .ok cs)
  | ['\\'] => ([], .error .ended)
  | '\\' :: 'u' :: a :: b :: c :: d :: cs =>
    match codeUnit? a b c d with
    | none => ([], .error .malformed)
    | some n =>
      let rest := scanPieces cs
      (.unit n :: rest.1, rest.2)
  | '\\' :: 'u' :: cs => ([], .error (escapeFault cs))
  | '\\' :: e :: cs =>
    match escaped? e with
    | none => ([], .error .malformed)
    | some c =>
      let rest := scanPieces cs
      (.char c :: rest.1, rest.2)
  | c :: cs =>
    if c.toNat < 0x20 then ([], .error .malformed)
    else
      let rest := scanPieces cs
      (.char c :: rest.1, rest.2)

/-- The first half of a surrogate pair. -/
def isHigh (n : Nat) : Bool := 0xD800 ≤ n && n < 0xDC00

/-- The second half of a surrogate pair. -/
def isLow (n : Nat) : Bool := 0xDC00 ≤ n && n < 0xE000

/-- The character of a surrogate pair. -/
def pairChar (high low : Nat) : Char :=
  Char.ofNat (0x10000 + (high - 0xD800) * 0x400 + (low - 0xDC00))

/-- The text that some pieces write, where `stop` is what is wrong after them. Halves of surrogate
pairs stand for a character only together. -/
def joinPieces (stop : Option Fault) : List Piece → Except Fault (List Char)
  | [] =>
    match stop with
    | none => .ok []
    | some fault => .error fault
  | .char c :: rest => do return c :: (← joinPieces stop rest)
  | .unit n :: rest =>
    if isLow n then .error .malformed
    else if isHigh n then
      match rest with
      | .unit m :: rest =>
        if isLow m then do return pairChar n m :: (← joinPieces stop rest) else .error .malformed
      | [] => .error (stop.getD .malformed)
      | .char _ :: _ => .error .malformed
    else do return Char.ofNat n :: (← joinPieces stop rest)

/-- A string whose opening quote has been read. -/
def scanString (cs : List Char) : Leaf String × Option (List Char) :=
  let scanned := scanPieces cs
  match scanned.2 with
  | .ok rest => (⟨(joinPieces none scanned.1).map String.ofList, none⟩, some rest)
  | .error fault => (⟨(joinPieces (some fault) scanned.1).map String.ofList, some fault⟩, none)

/-! ## Numbers -/

/-- A number that breaks off: a reader is told whether the text ends there. -/
def brokenNumber (cs : List Char) : Leaf Number × Option (List Char) :=
  (⟨.error (if cs.isEmpty then .ended else .malformed), some .malformed⟩, none)

/-- A number whose parts have all been read. -/
def finishedNumber (l : Literal) (cs : List Char) : Leaf Number × Option (List Char) :=
  match l.number? with
  | some n => (⟨.ok n, none⟩, some cs)
  | none => (⟨.error .malformed, none⟩, some cs)

/-- The exponent of a number, if there is one. -/
def scanExponent (isNegative : Bool) (whole : List Char) (fraction : Option (List Char)) :
    List Char → Leaf Number × Option (List Char)
  | [] => finishedNumber ⟨isNegative, whole, fraction, none⟩ []
  | e :: cs =>
    if e = 'e' ∨ e = 'E' then
      let (down, unsigned) :=
        match cs with
        | '-' :: cs => (true, cs)
        | '+' :: cs => (false, cs)
        | cs => (false, cs)
      let digits := unsigned.takeWhile Char.isDigit
      if digits.isEmpty then brokenNumber unsigned
      else
        finishedNumber ⟨isNegative, whole, fraction, some (down, digits)⟩
          (unsigned.dropWhile Char.isDigit)
    else finishedNumber ⟨isNegative, whole, fraction, none⟩ (e :: cs)

/-- The fraction of a number, if there is one, and what follows it. -/
def scanFraction (isNegative : Bool) (whole : List Char) :
    List Char → Leaf Number × Option (List Char)
  | '.' :: cs =>
    let digits := cs.takeWhile Char.isDigit
    if digits.isEmpty then brokenNumber cs
    else scanExponent isNegative whole (some digits) (cs.dropWhile Char.isDigit)
  | cs => scanExponent isNegative whole none cs

/-- A number after its minus sign. A zero at the beginning stands alone before the point. -/
def scanUnsigned (isNegative : Bool) (cs : List Char) : Leaf Number × Option (List Char) :=
  let digits := cs.takeWhile Char.isDigit
  match digits with
  | [] => brokenNumber cs
  | '0' :: _ :: _ => (⟨.error .malformed, some .malformed⟩, none)
  | _ => scanFraction isNegative digits (cs.dropWhile Char.isDigit)

/-- A number. -/
def scanNumber : List Char → Leaf Number × Option (List Char)
  | '-' :: cs => scanUnsigned true cs
  | cs => scanUnsigned false cs

/-! ## Words -/

/-- The characters after a word that is wanted here, or what is wrong. -/
def scanWord : List Char → List Char → Except Fault (List Char)
  | [], cs => .ok cs
  | _ :: _, [] => .error .ended
  | w :: word, c :: cs => if w = c then scanWord word cs else .error .malformed

end RowScope.Json
