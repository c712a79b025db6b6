import SchemaClosure.Calendar.Instant
import SchemaClosure.Number.Numeral
import SchemaClosure.Number.Shortest
import SchemaClosure.Text.Quoted

/-!
# Scalars

The values of a document that hold no other values. They are what mapping keys are made of, so
their equality as keys (`Scalar.same`) is given here: numbers and truth values are compared by
value across their kinds, everything else within its kind. `Scalar.label?` is the name that a
scalar gives to what it is the key of.
-/

namespace SchemaClosure

/-- Tells the places of documents apart: the number of the document and of the place in it. What is
written once and referred to from several places carries one mark in all of them. -/
structure Mark where
  document : Nat
  place : Nat
  deriving DecidableEq, Repr

/-- Where a nan comes from. No nan equals a number, but as a key it is found again by its origin. -/
inductive NanOrigin where
  /-- The spelling for a nan, which stands for one and the same nan everywhere. -/
  | spelling
  /-- A numeral, which stands for a nan of its own. -/
  | numeral (mark : Option Mark)
  deriving DecidableEq, Repr

/-- Whether two nans are one and the same. -/
def NanOrigin.same : NanOrigin → NanOrigin → Bool
  | .spelling, .spelling => true
  | .numeral (some m), .numeral (some n) => m = n
  | _, _ => false

inductive Scalar where
  | null
  | bool (b : Bool)
  | int (n : Int)
  | float (x : Binary64)
  | nan (origin : NanOrigin)
  | text (s : String)
  | bytes (octets : List UInt8)
  | date (mark : Option Mark) (d : Date)
  | instant (mark : Option Mark) (t : Instant)
  deriving DecidableEq, Repr, Inhabited

namespace Scalar

/-- The value of a numeral with a point or an exponent. -/
def ofNumeral (mark : Option Mark) (x : Binary64) : Scalar :=
  if x = .nan then .nan (.numeral mark) else .float x

/-- The integer value of a truth value or integer. -/
def integer? : Scalar → Option Int
  | .bool b => some (if b then 1 else 0)
  | .int n => some n
  | _ => none

/-- Whether two scalars are one and the same key. -/
def same : Scalar → Scalar → Bool
  | .null, .null => true
  | .text s, .text t => s == t
  | .bytes a, .bytes b => a == b
  | .date _ d, .date _ e => d == e
  | .instant _ s, .instant _ t => s.same t
  | .nan a, .nan b => a.same b
  | .float x, .float y => x.compare? y == some .eq
  | .float x, other => other.integer?.any fun n => x.equalsInt n
  | other, .float x => other.integer?.any fun n => x.equalsInt n
  | a, b => a.integer?.isSome && a.integer? == b.integer?

/-- The name that a scalar gives to what it is the key of: a text is its own name. An integer with too
many digits gives none. -/
def label? : Scalar → Option String
  | .null => some "None"
  | .bool b => some (if b then "True" else "False")
  | .int n => Numeral.text? n
  | .float x => some (x.text Binary64.plainSpelling)
  | .nan _ => some (Binary64.nan.text Binary64.plainSpelling)
  | .text s => some s
  | .bytes octets => some (Text.quotedBytes octets)
  | .date _ d => some d.text
  | .instant _ t => some (t.text " ")

/-- Whether the scalar stands for nothing: null, false, zero, and the empty text and octets. -/
def isVoid : Scalar → Bool
  | .null => true
  | .bool b => !b
  | .int n => n == 0
  | .float x => x.isZero
  | .nan _ => false
  | .text s => s.isEmpty
  | .bytes octets => octets.isEmpty
  | .date _ _ => false
  | .instant _ _ => false

/-- Whether the scalar has a text: all have but integers with too many digits. -/
def isWritable : Scalar → Bool
  | .int n => (Numeral.text? n).isSome
  | _ => true

/-- The entries with a value put under a key: in place if the key is there, else at the end. -/
def put {α : Type} (key : Scalar) (value : α) : List (Scalar × α) → List (Scalar × α)
  | [] => [(key, value)]
  | (k, v) :: rest => if k.same key then (k, value) :: rest else (k, v) :: put key value rest

end Scalar

end SchemaClosure
