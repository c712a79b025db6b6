/-!
# Binary64 numbers

Numbers with a 53-bit significand, in exact arithmetic. A number is built by rounding a fraction to
the nearest representable value, a tie going to the even significand (`Binary64.round`), so that
every operation is "compute exactly, then round". Equal numbers have equal representations, the two
zeros apart: a finite number has a full significand or the least exponent.
-/

namespace SchemaClosure

/-- A nan, an infinity, or `±significand · 2 ^ exponent`. -/
inductive Binary64 where
  | nan
  | infinite (negative : Bool)
  | finite (negative : Bool) (significand : Nat) (exponent : Int)
  deriving DecidableEq, Repr, Inhabited

namespace Binary64

/-- The exponent of the least positive number. -/
def minExponent : Int := -1074

def maxExponent : Int := 971

def zero (negative : Bool) : Binary64 := .finite negative 0 minExponent

/-- The integer nearest to `n / d`, a tie going to the even one. -/
def divideEven (n d : Nat) : Nat :=
  let q := n / d
  let r := n % d
  if 2 * r < d then q else if d < 2 * r then q + 1 else if q % 2 = 0 then q else q + 1

/-- `n / (d · 2 ^ e)` as a fraction of natural numbers. -/
def scale (n d : Nat) (e : Int) : Nat × Nat :=
  if e < 0 then (n * Nat.pow 2 (-e).toNat, d) else (n, d * Nat.pow 2 e.toNat)

/-- The exponent of the last place of `n / d`: the fraction divided by this power of two lies
between `2 ^ 52` and `2 ^ 53`, or below if the exponent is the least one. -/
def lastPlace (n d : Nat) : Int :=
  let guess : Int := (n.log2 : Int) - d.log2 - 52
  let (a, b) := scale n d guess
  max (if a < b * Nat.pow 2 52 then guess - 1 else guess) minExponent

/-- The number with this significand and exponent, or the infinity if the exponent is too great. -/
def pack (negative : Bool) (significand : Nat) (exponent : Int) : Binary64 :=
  if maxExponent < exponent then .infinite negative else .finite negative significand exponent

/-- The number nearest to `±n / d`. -/
def round (negative : Bool) (n d : Nat) : Binary64 :=
  if n = 0 then zero negative
  else
    let e := lastPlace n d
    let (a, b) := scale n d e
    let m := divideEven a b
    if m = Nat.pow 2 53 then pack negative (Nat.pow 2 52) (e + 1) else pack negative m e

/-- The number nearest to `±m · 2 ^ e`. -/
def roundScaled (negative : Bool) (m : Nat) (e : Int) : Binary64 :=
  if e < 0 then round negative m (Nat.pow 2 (-e).toNat) else round negative (m * Nat.pow 2 e.toNat) 1

/-- The number nearest to an integer. -/
def ofInt (n : Int) : Binary64 :=
  round (n < 0) n.natAbs 1

/-- The number nearest to `±digits · 10 ^ e`. Far outside the range of the type the power is not
computed: beyond `10 ^ 400` everything is infinite, below `10 ^ -399` everything is zero. -/
def ofDecimal (negative : Bool) (digits : Nat) (e : Int) : Binary64 :=
  if digits = 0 then zero negative
  else if 400 < e then .infinite negative
  else if e < -((digits.log2 / 3 : Nat) : Int) - 400 then zero negative
  else if e < 0 then round negative digits (Nat.pow 10 (-e).toNat)
  else round negative (digits * Nat.pow 10 e.toNat) 1

/-- The number with the other sign. -/
def neg : Binary64 → Binary64
  | .nan => .nan
  | .infinite negative => .infinite (!negative)
  | .finite negative m e => .finite (!negative) m e

def isZero : Binary64 → Bool
  | .finite _ 0 _ => true
  | _ => false

/-- `±m · 2 ^ e` as an integer number of units `2 ^ unit`, where `unit ≤ e`. -/
def units (negative : Bool) (m : Nat) (e unit : Int) : Int :=
  let n : Int := m * Nat.pow 2 (e - unit).toNat
  if negative then -n else n

/-- The order of two numbers; a nan is in no order with anything. -/
def compare? : Binary64 → Binary64 → Option Ordering
  | .nan, _ => none
  | _, .nan => none
  | .infinite a, .infinite b => some (if a = b then .eq else if a then .lt else .gt)
  | .infinite a, .finite _ _ _ => some (if a then .lt else .gt)
  | .finite _ _ _, .infinite b => some (if b then .gt else .lt)
  | .finite a m e, .finite b n f =>
    let unit := min e f
    some (compare (units a m e unit) (units b n f unit))

/-- Whether the number has exactly the value of an integer. -/
def equalsInt (n : Int) : Binary64 → Bool
  | .finite negative m e =>
    let unit := min e 0
    units negative m e unit == n * Nat.pow 2 (-unit).toNat
  | _ => false

/-- The sum, rounded. Opposite numbers add up to the positive zero. -/
def add : Binary64 → Binary64 → Binary64
  | .nan, _ => .nan
  | _, .nan => .nan
  | .infinite a, .infinite b => if a = b then .infinite a else .nan
  | .infinite a, .finite _ _ _ => .infinite a
  | .finite _ _ _, .infinite b => .infinite b
  | .finite a m e, .finite b n f =>
    let unit := min e f
    let sum := units a m e unit + units b n f unit
    if sum = 0 then zero (a && b) else roundScaled (sum < 0) sum.natAbs unit

/-- The product, rounded. -/
def mul : Binary64 → Binary64 → Binary64
  | .nan, _ => .nan
  | _, .nan => .nan
  | .infinite a, .infinite b => .infinite (a != b)
  | .infinite a, .finite b n _ => if n = 0 then .nan else .infinite (a != b)
  | .finite a m _, .infinite b => if m = 0 then .nan else .infinite (a != b)
  | .finite a m e, .finite b n f => roundScaled (a != b) (m * n) (e + f)

end Binary64

end SchemaClosure
