import SchemaClosure.Number.Numeral
import SchemaClosure.Yaml.Token.Basic
import SchemaClosure.Yaml.Token.Scalar

/-!
# Anchors, tags and directives in the text

The small tokens with a grammar of their own: names of anchors, tags with their escapes, and the
directives in front of a document.
-/

namespace SchemaClosure.Yaml

/-- A character of a name: an ASCII letter, a digit, a hyphen or a low line. -/
def isNameChar (c : Char) : Bool :=
  c.isAlphanum || c = '-' || c = '_'

/-- A character of a tag that needs no escape. -/
def isTagChar (c : Char) : Bool :=
  c.isAlphanum || "-;/?:@&=+$,_.!~*'()[]".toList.contains c

namespace Property

def name (c : Cursor) : Except Fault (String × Cursor) := do
  let (chars, c) := c.next.span isNameChar
  if chars.isEmpty then throw .malformed
  if !(endsMark c.peek || c.peek.any ("?:,]\x7d%@\x60".toList.contains ·)) then throw .malformed
  return (String.ofList chars, c)

/-- Reads octets that are escaped by a percent sign and two hexadecimal digits each. -/
def octets : Nat → Cursor → List UInt8 → Except Fault (List UInt8 × Cursor)
  | 0, _, _ => .error .malformed
  | fuel + 1, c, acc =>
    match c.rest with
    | '%' :: rest =>
      match Quoted.hexNumber? 2 rest with
      | some n => octets fuel (c.skip 3) (n.toUInt8 :: acc)
      | none => .error .malformed
    | _ => .ok (acc.reverse, c)

/-- Reads the characters of a tag, escaped ones decoded; `acc` is what is read, last first. -/
def tagChars : Nat → Cursor → List Char → Except Fault (List Char × Cursor)
  | 0, _, _ => .error .malformed
  | fuel + 1, c, acc =>
    match c.peek with
    | some '%' => do
      let (bytes, c) ← octets (c.rest.length + 1) c []
      match String.fromUTF8? ⟨bytes.toArray⟩ with
      | some s => tagChars fuel c (s.toList.reverse ++ acc)
      | none => throw .malformed
    | some x => if isTagChar x then tagChars fuel c.next (x :: acc) else .ok (acc, c)
    | none => .ok (acc, c)

/-- Reads a tag or the stem that a directive gives to a handle; it must not be empty. -/
def tagText (c : Cursor) : Except Fault (String × Cursor) := do
  let (acc, c) ← tagChars (c.rest.length + 1) c []
  if acc.isEmpty then throw .malformed
  return (String.ofList acc.reverse, c)

/-- Reads a handle: an exclamation mark, or two with a name between them. -/
def handle (c : Cursor) : Except Fault (String × Cursor) := do
  if c.peek ≠ some '!' then throw .malformed
  let c := c.next
  if c.peek = some ' ' then return ("!", c)
  let (chars, c) := c.span isNameChar
  if c.peek ≠ some '!' then throw .malformed
  return (String.ofList ('!' :: chars ++ ['!']), c.next)

/-- Reads a tag: in full between angle brackets, alone, or with a handle. -/
def tag (c : Cursor) : Except Fault (Token × Cursor) := do
  let (token, c) ←
    if c.peekAt 1 = some '<' then do
      let (suffix, c) ← tagText (c.skip 2)
      if c.peek ≠ some '>' then throw .malformed
      pure (Token.tag none suffix, c.next)
    else if endsMark (c.peekAt 1) then pure (Token.tag none "!", c.next)
    else do
      let (start, c) ←
        if (c.next.rest.takeWhile fun x => !(isBreak x || x = ' ')).contains '!' then handle c
        else pure ("!", c.next)
      let (suffix, c) ← tagText c
      pure (Token.tag (some start) suffix, c)
  if !endsWord c.peek then throw .malformed
  return (token, c)

/-- Reads digits, of which there must not be too many. -/
def number (c : Cursor) : Except Fault (Nat × Cursor) := do
  let (digits, c) := c.span Char.isDigit
  if digits.isEmpty then throw .malformed
  if Numeral.maxDecimalDigits < digits.length then throw .notNumber
  return (digits.foldl (fun n d => 10 * n + (d.toNat - 48)) 0, c)

def directive (c : Cursor) : Except Fault (Token × Cursor) := do
  let (chars, c) := c.next.span isNameChar
  if chars.isEmpty then throw .malformed
  if !endsWord c.peek then throw .malformed
  let (d, c) ←
    match String.ofList chars with
    | "YAML" => do
      let (major, c) ← number c.skipSpaces
      if c.peek ≠ some '.' then throw .malformed
      let (_, c) ← number c.next
      if !endsWord c.peek then throw .malformed
      pure (Directive.version major, c)
    | "TAG" => do
      let (start, c) ← handle c.skipSpaces
      if c.peek ≠ some ' ' then throw .malformed
      let (stem, c) ← tagText c.skipSpaces
      if !endsWord c.peek then throw .malformed
      pure (Directive.tag start stem, c)
    | _ => pure (Directive.other, c.skipWhile (!isBreak ·))
  let c := c.skipSpaces.skipComment
  if !endsLine c.peek then throw .malformed
  return (.directive d, c.skipBreak)

end Property

end SchemaClosure.Yaml
