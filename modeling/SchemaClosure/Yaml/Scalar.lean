import SchemaClosure.Text.Base64
import SchemaClosure.Text.Lower
import SchemaClosure.Document.Scalar
import SchemaClosure.Document.Fault
import SchemaClosure.Yaml.Tag

/-!
# Values of scalars

The value that the text of a scalar denotes under its tag. Low lines inside numerals are passed
over, numerals to base 60 are written with colons, and integers have a sign, a base and digits.
-/

namespace SchemaClosure.Yaml

/-- The value of digits to base 60, the last one first, each worth `place` units. -/
def sixtieths (place : Int) : List Int → Int
  | [] => 0
  | d :: rest => d * place + sixtieths (place * 60) rest

/-- The value of numbers to base 60 added up from the last one, rounding at each step. The worth of
every place must be in the range of the type. -/
def sixtiethsRounded (sum : Binary64) (place : Int) : List Binary64 → Except Fault Binary64
  | [] => .ok sum
  | x :: rest =>
    let worth := Binary64.ofInt place
    if worth = .infinite false then .error .tooLarge
    else sixtiethsRounded (sum.add (x.mul worth)) (place * 60) rest

/-- A numeral without its low lines: whether it is negative, and what is behind the sign. -/
def numeral (text : List Char) : Except Fault (Bool × List Char) :=
  let digits := text.filter (· ≠ '_')
  if digits.isEmpty then .error .emptyNumeral else .ok (Numeral.cutSign digits)

def intValue (text : String) : Except Fault Int := do
  let (negative, s) ← numeral text.toList
  let n ←
    match s with
    | [] => throw .emptyNumeral
    | ['0'] => pure 0
    | '0' :: 'b' :: bits => (Numeral.int? 2 bits).elim (throw .notNumber) pure
    | '0' :: 'x' :: digits => (Numeral.int? 16 digits).elim (throw .notNumber) pure
    | '0' :: _ => (Numeral.int? 8 s).elim (throw .notNumber) pure
    | _ =>
      if s.contains ':' then
        match (Chars.split ':' s).mapM (Numeral.int? 10) with
        | some digits => pure (sixtieths 1 digits.reverse)
        | none => throw .notNumber
      else (Numeral.int? 10 s).elim (throw .notNumber) pure
  return if negative then -n else n

/-- The value of a decimal number. The spelling for a nan stands for one nan, whatever its sign. -/
def floatValue (mark : Option Mark) (text : String) : Except Fault Scalar := do
  let (negative, s) ← numeral (Text.lower text).toList
  if s = ".nan".toList then return .nan .spelling
  let x ←
    if s = ".inf".toList then pure (.infinite false)
    else if s.contains ':' then
      match (Chars.split ':' s).mapM Numeral.float? with
      | some parts => sixtiethsRounded (.zero false) 1 parts.reverse
      | none => throw .notNumber
    else (Numeral.float? s).elim (throw .notNumber) pure
  return .ofNumeral mark (if negative then x.neg else x)

/-- The number that ASCII digits denote. -/
def digitsValue (digits : List Char) : Nat :=
  digits.foldl (fun n d => 10 * n + (d.toNat - 48)) 0

/-- The offset in minutes. -/
def offsetValue (sign : Bool) (hours minutes : List Char) : Int :=
  let n : Int := (digitsValue hours * 60 + digitsValue minutes : Nat)
  if sign then -n else n

/-- The value of a day or time. Of the fraction of a second the first six digits count. -/
def timeValue (mark : Option Mark) (text : String) : Except Fault Scalar := do
  let some t := Form.time? (Form.dropBreak text.toList) | throw .notTime
  let some date := Date.of? (digitsValue t.year) (digitsValue t.month) (digitsValue t.day)
    | throw .noSuchTime
  match t.clock with
  | none => return .date mark date
  | some c =>
    let fraction := c.fraction.take 6
    let microsecond := digitsValue (fraction ++ List.replicate (6 - fraction.length) '0')
    let offset := c.zone.map fun zone =>
      match zone with
      | none => 0
      | some (sign, hours, minutes) => offsetValue sign hours minutes
    match Instant.of? date (digitsValue c.hour) (digitsValue c.minute) (digitsValue c.second)
        microsecond offset with
    | some i => return .instant mark i
    | none => throw .noSuchTime

def scalarValue (mark : Option Mark) (tag : Tag) (text : String) : Except Fault Scalar :=
  match tag with
  | .null => .ok .null
  | .bool =>
    match Tag.truthWords.lookup (Text.lower text) with
    | some b => .ok (.bool b)
    | none => .error .notTruthValue
  | .int => (intValue text).map .int
  | .float => floatValue mark text
  | .str => .ok (.text text)
  | .binary =>
    if text.toList.all (·.toNat < 0x80) then
      match Base64.decode? text with
      | some octets => .ok (.bytes octets)
      | none => .error .malformed
    else .error .malformed
  | .timestamp => timeValue mark text
  | _ => .error .malformed

end SchemaClosure.Yaml
