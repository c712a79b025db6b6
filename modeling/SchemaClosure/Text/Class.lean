import SchemaClosure.Text.Table.Digit
import SchemaClosure.Text.Table.Printable
import SchemaClosure.Text.Table.Word

/-!
# Classes of characters

White space, decimal digits, word characters and characters that show as they are, over the whole
of Unicode, and what is built on white space alone: `Text.strip` and `Text.stripRight`.
-/

namespace SchemaClosure

namespace Text

/-- Whether one of the closed ranges holds the code point. -/
def inRanges (ranges : List (Nat × Nat)) (n : Nat) : Bool :=
  ranges.any fun (lo, hi) => lo ≤ n && n ≤ hi

def blankRanges : List (Nat × Nat) :=
  [(0x09, 0x0D), (0x1C, 0x20), (0x85, 0x85), (0xA0, 0xA0), (0x1680, 0x1680), (0x2000, 0x200A),
   (0x2028, 0x2029), (0x202F, 0x202F), (0x205F, 0x205F), (0x3000, 0x3000)]

/-- White space: what is trimmed from the ends of names and settings. -/
def isBlank (c : Char) : Bool :=
  inRanges blankRanges c.toNat

/-- White space that may surround a numeral: all of it but the four separators U+001C to U+001F. -/
def isNumeralBlank (c : Char) : Bool :=
  isBlank c && !(0x1C ≤ c.toNat && c.toNat ≤ 0x1F)

/-- The value of a decimal digit of any script. -/
def digitValue? (c : Char) : Option Nat :=
  (Table.digit.find? fun (lo, hi) => lo ≤ c.toNat && c.toNat ≤ hi).map fun (lo, _) =>
    (c.toNat - lo) % 10

/-- A decimal digit of any script. -/
def isDigit (c : Char) : Bool :=
  (digitValue? c).isSome

/-- A letter, a character with a numeric value or the low line. -/
def isWord (c : Char) : Bool :=
  inRanges Table.word c.toNat

/-- A character that shows as it is inside a quoted name. -/
def isPrintable (c : Char) : Bool :=
  inRanges Table.printable c.toNat

end Text

namespace Chars

def stripLeft (s : List Char) : List Char :=
  s.dropWhile Text.isBlank

def stripRight (s : List Char) : List Char :=
  (stripLeft s.reverse).reverse

def strip (s : List Char) : List Char :=
  stripRight (stripLeft s)

end Chars

namespace Text

def strip (s : String) : String :=
  String.ofList (Chars.strip s.toList)

def stripRight (s : String) : String :=
  String.ofList (Chars.stripRight s.toList)

end Text

end SchemaClosure
