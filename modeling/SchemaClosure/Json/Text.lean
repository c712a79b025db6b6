import SchemaClosure.Document.Fault
import SchemaClosure.Document.Value
import SchemaClosure.Text.CodePoint

/-!
# JSON text

String literals in ASCII and the indented JSON text of a value. Keys that are no texts are spelled
as texts; days, times, octets and sets have no JSON form, and neither has what holds itself
(`Json.render?`).
-/

namespace SchemaClosure

namespace Json

/-- An escape by a UTF-16 code unit. -/
def unitEscape (unit : Nat) : List Char := '\\' :: 'u' :: Text.digits 16 4 unit

/-- A character inside a string literal. Beyond the basic plane it takes two code units. -/
def literalChar (c : Char) : List Char :=
  let n := Text.code c
  if c = '"' || c = '\\' then ['\\', c]
  else if c = '\n' then ['\\', 'n']
  else if c = '\r' then ['\\', 'r']
  else if c = '\t' then ['\\', 't']
  else if n = 8 then ['\\', 'b']
  else if n = 12 then ['\\', 'f']
  else if 0x20 ≤ n && n ≤ 0x7E then [c]
  else if n < 0x10000 then unitEscape n
  else unitEscape (0xD800 + (n - 0x10000) / 0x400) ++ unitEscape (0xDC00 + (n - 0x10000) % 0x400)

def literal (s : String) : String :=
  String.ofList ('"' :: s.toList.flatMap literalChar ++ ['"'])

/-- Numbers outside of the finite ones are spelled by their names. -/
def spelling : Binary64.Spelling := ⟨"NaN", "Infinity", "-Infinity", -3, 16⟩

/-- The text of a scalar that has no parts to be quoted. -/
def word? : Scalar → Except Unwritable String
  | .null => .ok "null"
  | .bool b => .ok (if b then "true" else "false")
  | .int n => (Numeral.text? n).elim (.error .numberTooLong) .ok
  | .float x => .ok (x.text spelling)
  | .nan _ => .ok (Binary64.nan.text spelling)
  | _ => .error .noForm

def scalar? : Scalar → Except Unwritable String
  | .text s => .ok (literal s)
  | s => word? s

/-- The text of a key: always a string literal. -/
def key? : Scalar → Except Unwritable String
  | .text s => .ok (literal s)
  | s => (word? s).map literal

/-- Items on lines of their own between brackets. -/
def enclose (openWith closeWith : String) (depth : Nat) (items : List String) : String :=
  match items with
  | [] => openWith ++ closeWith
  | first :: rest =>
    let line (d : Nat) := "\n" ++ String.ofList (List.replicate (2 * d) ' ')
    openWith ++ line (depth + 1) ++ first
      ++ String.join (rest.map fun item => "," ++ line (depth + 1) ++ item) ++ line depth ++ closeWith

mutual

/-- The text of a value at a depth. -/
def renderAt? (depth : Nat) : Value → Except Unwritable String
  | .scalar s => scalar? s
  | .list _ items => (renderItems? (depth + 1) items).map (enclose "[" "]" depth)
  | .mapping _ entries =>
    (renderEntries? (depth + 1) entries).map (enclose "\x7b" "\x7d" depth)
  | .set _ _ => .error .noForm
  | .knot _ body => renderAt? depth body
  | .again _ => .error .endless

/-- The texts of the items of a list. -/
def renderItems? (depth : Nat) : List Value → Except Unwritable (List String)
  | [] => .ok []
  | v :: rest => do
    let first ← renderAt? depth v
    let rest ← renderItems? depth rest
    return first :: rest

/-- The texts of the entries of a mapping. -/
def renderEntries? (depth : Nat) : List (Scalar × Value) → Except Unwritable (List String)
  | [] => .ok []
  | (k, v) :: rest => do
    let key ← key? k
    let value ← renderAt? depth v
    let rest ← renderEntries? depth rest
    return (key ++ ": " ++ value) :: rest

end

/-- The JSON text of a value with two spaces for each depth, if it has one. -/
def render? (v : Value) : Except Unwritable String :=
  renderAt? 0 v

end Json

end SchemaClosure
