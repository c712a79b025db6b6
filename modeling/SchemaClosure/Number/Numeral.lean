import SchemaClosure.Number.Binary64
import SchemaClosure.Text.Class

/-!
# Numerals

Integers to a base and decimal numbers are read. Digits of every script count, white space around the
numeral is passed over, and nothing else may stand beside it. Decimal integers have an upper limit
of digits, both when they are read and when they are written.
-/

namespace SchemaClosure

namespace Numeral

/-- The text without the white space around a numeral. -/
def trim (s : List Char) : List Char :=
  ((s.dropWhile Text.isNumeralBlank).reverse.dropWhile Text.isNumeralBlank).reverse

/-- The sign in front and the rest. -/
def cutSign : List Char → Bool × List Char
  | '-' :: rest => (true, rest)
  | '+' :: rest => (false, rest)
  | s => (false, s)

/-- The value of a digit or letter in bases up to 36. -/
def value? (c : Char) : Option Nat :=
  match Text.digitValue? c with
  | some v => some v
  | none =>
    let small := c.toLower
    if 'a' ≤ small && small ≤ 'z' then some (small.toNat - 'a'.toNat + 10) else none

/-- The number that the digits denote, most significant first. -/
def natOf? (base : Nat) : Nat → List Char → Option Nat
  | acc, [] => some acc
  | acc, c :: rest =>
    match value? c with
    | some v => if v < base then natOf? base (acc * base + v) rest else none
    | none => none

/-- The letter that may mark the base behind a leading zero. -/
def baseMark : Nat → Option Char
  | 2 => some 'b'
  | 8 => some 'o'
  | 16 => some 'x'
  | _ => none

def dropMark (base : Nat) : List Char → List Char
  | '0' :: c :: rest => if some c.toLower = baseMark base then rest else '0' :: c :: rest
  | s => s

/-- The greatest number of digits of a decimal integer. -/
def maxDecimalDigits : Nat := 4300

/-- The decimal text of an integer, unless it has too many digits. -/
def text? (n : Int) : Option String :=
  if (toString n.natAbs).length ≤ maxDecimalDigits then some (toString n) else none

/-- An integer to a base: a sign, the mark of the base, and at least one digit. -/
def int? (base : Nat) (s : List Char) : Option Int :=
  let (negative, rest) := cutSign (trim s)
  let digits := dropMark base rest
  if digits.isEmpty || (base == 10 && maxDecimalDigits < digits.length) then none
  else (natOf? base 0 digits).map fun n => if negative then -(n : Int) else n

/-- The exponent of a decimal number: nothing, or an `e` with an integer behind it. -/
def exponent? : List Char → Option Int
  | [] => some 0
  | c :: rest =>
    if c.toLower = 'e' then
      let (negative, digits) := cutSign rest
      if digits.isEmpty then none
      else (natOf? 10 0 digits).map fun n => if negative then -(n : Int) else n
    else none

/-- A decimal number without a sign: digits, perhaps with a point among them, and an exponent. -/
def decimal? (negative : Bool) (s : List Char) : Option Binary64 := do
  let whole := s.takeWhile Text.isDigit
  let rest := s.dropWhile Text.isDigit
  let (part, rest) :=
    match rest with
    | '.' :: after => (after.takeWhile Text.isDigit, after.dropWhile Text.isDigit)
    | _ => ([], rest)
  guard !(whole.isEmpty && part.isEmpty)
  let e ← exponent? rest
  let digits ← natOf? 10 0 (whole ++ part)
  return Binary64.ofDecimal negative digits (e - part.length)

/-- A number: a decimal one, or a name of infinity or of a nan in any case. -/
def float? (s : List Char) : Option Binary64 :=
  let (negative, rest) := cutSign (trim s)
  match String.ofList (rest.map Char.toLower) with
  | "inf" => some (.infinite negative)
  | "infinity" => some (.infinite negative)
  | "nan" => some .nan
  | _ => decimal? negative rest

end Numeral

end SchemaClosure
