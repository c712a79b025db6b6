import SchemaClosure.Number.Numeral
import SchemaClosure.Text.CodePoint
import SchemaClosure.Text.Lower
import SchemaClosure.Text.Pieces

/-!
# Natural order of file names

Names are compared part by part: runs of digits as numbers, the text between them regardless of
case, and the extension not at all. Of names that agree in this the shorter one comes first.

A number is digits, perhaps with one point in front of the last run of them. A text between numbers
that spells infinity counts as a number, too.
-/

namespace SchemaClosure

inductive NamePart where
  | number (x : Binary64)
  | text (s : String)
  deriving DecidableEq, Repr

/-- What a name is sorted by. -/
structure NaturalKey where
  parts : List NamePart
  length : Nat
  deriving DecidableEq, Repr

namespace NaturalKey

/-- The text without its extension: a point and word characters at the end, or before a line break
at the end. -/
def dropExtension (s : List Char) : List Char :=
  let (body, tail) :=
    match s.reverse with
    | '\n' :: rest => (rest, ['\n'])
    | rest => (rest, [])
  let word := body.takeWhile Text.isWord
  match body.dropWhile Text.isWord with
  | '.' :: rest => if word.isEmpty then s else rest.reverse ++ tail
  | _ => s

/-- The length of the number at the start of a text, zero if there is none: digits, a point and
digits, or else digits alone. -/
def numberLength (s : List Char) : Nat :=
  let whole := (s.takeWhile Text.isDigit).length
  match s.drop whole with
  | '.' :: rest =>
    let part := (rest.takeWhile Text.isDigit).length
    if part = 0 then whole else whole + 1 + part
  | _ => whole

/-- The texts between numbers and the numbers in turn. `text` is the text that is being read, last
character first, and `skip` counts the characters of a number still to be read into `number`. -/
def chunksFrom (text number : List Char) : Nat → List Char → List (List Char)
  | 0, [] => [text.reverse]
  | _ + 1, [] => [number.reverse]
  | skip + 1, c :: rest =>
    if skip = 0 then (c :: number).reverse :: chunksFrom [] [] 0 rest
    else chunksFrom text (c :: number) skip rest
  | 0, c :: rest =>
    let n := numberLength (c :: rest)
    if n = 0 then chunksFrom (c :: text) [] 0 rest
    else if n = 1 then text.reverse :: [c] :: chunksFrom [] [] 0 rest
    else text.reverse :: chunksFrom [] [c] (n - 1) rest

def partOf (chunk : List Char) : NamePart :=
  match Numeral.float? chunk with
  | some x => .number x
  | none => .text (Text.lower (String.ofList chunk))

/-- The key of a file name. -/
def of (name : String) : NaturalKey :=
  let chunks := chunksFrom [] [] 0 (dropExtension name.toList)
  ⟨(chunks.filter (!·.isEmpty)).map partOf, name.length⟩

/-- Whether two parts count as equal. -/
def samePart : NamePart → NamePart → Bool
  | .number x, .number y => x.compare? y == some .eq
  | .text s, .text t => s == t
  | _, _ => false

/-- Whether a part comes before another one; numbers come before texts. -/
def partLt : NamePart → NamePart → Bool
  | .number x, .number y => x.compare? y == some .lt
  | .number _, .text _ => true
  | .text _, .number _ => false
  | .text s, .text t => Text.codes s < Text.codes t

/-- Compares two lists of parts at the first place where they differ; `last` decides if there is
none. -/
def partsLt (last : Bool) : List NamePart → List NamePart → Bool
  | [], [] => last
  | [], _ :: _ => true
  | _ :: _, [] => false
  | p :: ps, q :: qs => if samePart p q then partsLt last ps qs else partLt p q

/-- Whether a key comes before another one. -/
def lt (a b : NaturalKey) : Bool :=
  partsLt (a.length < b.length) a.parts b.parts

end NaturalKey

/-- The values in the natural order of their names; values that agree keep their order. A nan in a key
compares with nothing, so where the names of nans come depends on how the sort goes, and only the sort of
keys without nans is meant here. -/
def naturalSortBy {α : Type} (name : α → String) (values : List α) : List α :=
  let keyed := values.map fun v => (NaturalKey.of (name v), v)
  (keyed.mergeSort fun a b => !(b.1.lt a.1)).map (·.2)

end SchemaClosure
