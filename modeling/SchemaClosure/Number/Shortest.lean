import SchemaClosure.Number.Binary64
import SchemaClosure.Text.Pieces

/-!
# Shortest decimals and the text of a number

The decimal with the fewest digits that reads back as a given binary64 number, and its text. For 1,
2, … 17 digits the two neighbours of the number on that decimal grid are tested in exact arithmetic
against the interval of reals that round to the number; the first grid with a hit wins, and of two
hits the nearer one.
-/

namespace SchemaClosure

namespace Binary64

/-- A positive decimal `digits · 10 ^ exponent`. -/
structure Decimal where
  digits : Nat
  exponent : Int
  deriving DecidableEq, Repr

/-- `a / b < c · 10 ^ k`, or `≤` if `orEqual`. -/
def belowDecimal (orEqual : Bool) (a b c : Nat) (k : Int) : Bool :=
  let (l, r) := if k < 0 then (a * Nat.pow 10 (-k).toNat, b * c) else (a, b * c * Nat.pow 10 k.toNat)
  if orEqual then l ≤ r else l < r

/-- The greatest `k` with `10 ^ k ≤ n / d`, from an estimate by the binary logarithm. -/
def decimalPlace (n d : Nat) : Int :=
  let guess := ((n.log2 : Int) - d.log2) * 30103 / 100000
  if belowDecimal true (Nat.pow 10 guess.toNat * 10 * d) (Nat.pow 10 (-guess).toNat) n 0 then guess + 1
  else if belowDecimal true (Nat.pow 10 guess.toNat * d) (Nat.pow 10 (-guess).toNat) n 0 then guess
  else guess - 1

/-- The decimal of the grid `10 ^ k` nearest to `n / d` among those between `low / d` and
`high / d`, ends included if `closed`. -/
def onGrid? (closed : Bool) (low n high d : Nat) (k : Int) : Option Decimal :=
  let c := if k < 0 then n * Nat.pow 10 (-k).toNat / d else n / (d * Nat.pow 10 k.toNat)
  let inside (c : Nat) :=
    belowDecimal closed low d c k && !belowDecimal (!closed) high d c k
  let upperNearer :=
    let (l, r) := if k < 0 then (2 * n * Nat.pow 10 (-k).toNat, (2 * c + 1) * d)
      else (2 * n, (2 * c + 1) * d * Nat.pow 10 k.toNat)
    l > r || (l == r && c % 2 == 1)
  match inside c, inside (c + 1) with
  | true, true => some ⟨if upperNearer then c + 1 else c, k⟩
  | true, false => some ⟨c, k⟩
  | false, true => some ⟨c + 1, k⟩
  | false, false => none

/-- The first hit among the grids with `count`, `count + 1`, … digits. -/
def firstGrid (closed : Bool) (low n high d : Nat) (place : Int) : Nat → Nat → Decimal
  | 0, count => ⟨n / d, count⟩
  | fuel + 1, count =>
    match onGrid? closed low n high d (place - count + 1) with
    | some r => r
    | none => firstGrid closed low n high d place fuel (count + 1)

def Decimal.trim : Nat → Decimal → Decimal
  | 0, r => r
  | fuel + 1, r =>
    if r.digits % 10 = 0 && r.digits != 0 then Decimal.trim fuel ⟨r.digits / 10, r.exponent + 1⟩
    else r

/-- The shortest decimal that reads back as `m · 2 ^ e`, for positive `m`. The reals that round to
the number reach half a unit up and half a unit down, a quarter down at a power of two. -/
def shortest (m : Nat) (e : Int) : Decimal :=
  let down := if m = Nat.pow 2 52 && minExponent < e then 1 else 2
  let (up, d) := if e - 2 < 0 then (1, Nat.pow 2 (2 - e).toNat) else (Nat.pow 2 (e - 2).toNat, 1)
  let n := 4 * m * up
  (firstGrid (m % 2 == 0) ((4 * m - down) * up) n ((4 * m + 2) * up) d (decimalPlace n d) 17 1).trim 20

/-- How a format spells its numbers. -/
structure Spelling where
  /-- The texts of a nan, of infinity and of minus infinity. -/
  nan : String
  infinity : String
  minusInfinity : String
  /-- The least and the greatest number of digits before the point in positional form. -/
  leastPoint : Int
  greatestPoint : Int
  deriving Repr

/-- The text of a positive decimal: positional with at least one digit on both sides of the point,
or with an exponent of a sign and at least two digits. -/
def Decimal.text (least greatest : Int) (r : Decimal) : List Char :=
  let digits := Nat.toDigits 10 r.digits
  let point := digits.length + r.exponent
  if point < least || greatest < point then
    let tail := if digits.length = 1 then [] else '.' :: digits.drop 1
    let e := point - 1
    digits.take 1 ++ tail ++ ['e', if e < 0 then '-' else '+'] ++ Text.digits 10 2 e.natAbs
  else if point ≤ 0 then
    ['0', '.'] ++ List.replicate (-point).toNat '0' ++ digits
  else if (digits.length : Int) ≤ point then
    digits ++ List.replicate (point - digits.length).toNat '0' ++ ['.', '0']
  else
    digits.take point.toNat ++ '.' :: digits.drop point.toNat

/-- The text of a number in a given spelling. -/
def text (style : Spelling) : Binary64 → String
  | .nan => style.nan
  | .infinite negative => if negative then style.minusInfinity else style.infinity
  | .finite negative m e =>
    let digits :=
      if m = 0 then ['0', '.', '0']
      else (shortest m e).text style.leastPoint style.greatestPoint
    String.ofList (if negative then '-' :: digits else digits)

/-- Numbers stand in positional form from `0.0001` up to 16 digits before the point. -/
def plainSpelling : Spelling := ⟨"nan", "inf", "-inf", -3, 16⟩

end Binary64

end SchemaClosure
