import SchemaClosure.Number.Shortest
import SchemaClosure.Document.Scalar
import SchemaClosure.Text.Base64
import SchemaClosure.Yaml.Sheet
import SchemaClosure.Yaml.Tag

/-!
# Styles of scalars

How a scalar is written: plain where its text reads back as what it is, else between single quotes,
and between double quotes with escapes where it holds anything but printable ASCII and line feeds, or
a space next to a line feed. Words are folded at single spaces once the line is full. Octets stand
as base 64 in lines of their own.
-/

namespace SchemaClosure.Yaml

inductive Style where
  | plain
  | single
  | double
  | literal
  deriving DecidableEq, Repr

namespace Style

/-- A character that needs no escape, the line feed included. -/
def isSimple (c : Char) : Bool :=
  c = '\n' || (0x20 ≤ c.toNat && c.toNat ≤ 0x7E)

/-- The characters that cannot start a plain text. -/
def indicators : List Char := "#,[]\x7b\x7d&*!|>'\"%@\x60".toList

/-- Whether a mark of the block form stands among the characters behind `before`: a colon before a
space or the end, or a number sign behind a space. -/
def holdsMark (before : Char) : List Char → Bool
  | [] => false
  | c :: rest =>
    (c = ':' && rest.head?.all (· = ' ')) || (c = '#' && before = ' ') || holdsMark c rest

/-- Whether a text starts like a mark of the block form. -/
def startsMark : List Char → Bool
  | [] => false
  | c :: rest =>
    indicators.contains c || ((c = '?' || c = ':' || c = '-') && rest.head?.all (· = ' '))

/-- Whether a plain text of these characters is one text on one line. -/
def allowsPlain (s : List Char) : Bool :=
  !s.isEmpty && s.all isSimple && !s.contains '\n'
    && s.head? != some ' ' && s.getLast? != some ' '
    && !"---".toList.isPrefixOf s && !"...".toList.isPrefixOf s
    && !startsMark s && !holdsMark (s.head?.getD ' ') (s.drop 1)

/-- Whether a space and a line feed stand side by side. -/
def hasSpaceAtBreak : List Char → Bool
  | a :: b :: rest =>
    (a = ' ' && b = '\n') || (a = '\n' && b = ' ') || hasSpaceAtBreak (b :: rest)
  | _ => false

/-- Whether single quotes keep the text. -/
def allowsSingle (s : List Char) : Bool :=
  s.all isSimple && !hasSpaceAtBreak s

def ofText (s : String) : Style :=
  if Tag.ofPlain s = .str && allowsPlain s.toList then .plain
  else if allowsSingle s.toList then .single
  else .double

end Style

/-- What is written for a scalar: the name of its tag, its text and its style. -/
structure Spelled where
  tagName : String
  text : String
  style : Style
  deriving Repr

namespace Spelled

/-- Numbers with an exponent have a point in front of it. -/
def floatText (x : Binary64) : String :=
  let s := x.text ⟨".nan", ".inf", "-.inf", -3, 16⟩
  if s.toList.contains '.' then s else Text.replace "e" ".0e" s

def of : Scalar → Spelled
  | .null => ⟨"!!null", "null", .plain⟩
  | .bool b => ⟨"!!bool", if b then "true" else "false", .plain⟩
  | .int n => ⟨"!!int", toString n, .plain⟩
  | .float x => ⟨"!!float", floatText x, .plain⟩
  | .nan _ => ⟨"!!float", floatText .nan, .plain⟩
  | .text s => ⟨"!!str", s, Style.ofText s⟩
  | .bytes octets =>
    ⟨"!!binary", Base64.encode octets, if octets.isEmpty then .double else .literal⟩
  | .date _ d => ⟨"!!timestamp", d.text, .plain⟩
  | .instant _ t => ⟨"!!timestamp", t.text " ", .plain⟩

/-- Whether the tag is written. Other scalars than octets read back with their tag. -/
def showsTag (p : Spelled) : Bool := p.tagName = "!!binary"

/-- The greatest length of a key on one line, its tag and its anchor counted. -/
def keyLimit : Nat := 128

/-- A character that ends a line, a carriage return apart. -/
def endsLine (c : Char) : Bool := c = '\n' || c = '\x85' || c = '\u2028' || c = '\u2029'

/-- Whether a scalar can be a key on one line; `more` is the length of its anchor. -/
def fitsKey (p : Spelled) (more : Nat) : Bool :=
  more + p.tagName.length + p.text.length < keyLimit && p.text != "" && !p.text.toList.any endsLine

end Spelled

namespace Sheet

/-- Pieces of a text: runs of spaces, runs of line feeds, and what stands between them. -/
def runs (s : List Char) : List (List Char) :=
  let kind (c : Char) : Nat := if c = ' ' then 0 else if c = '\n' then 1 else 2
  s.splitBy fun a b => kind a == kind b

/-- Writes a plain text. Where `folds` allows it, a single space becomes a line break when the line
is full. -/
def plain (s : Sheet) (indent : Nat) (folds : Bool) (text : String) : Sheet :=
  let s := s.spacedMark ""
  (runs text.toList).foldl (fun s run =>
    if folds && run = [' '] && width < s.column then s.resume indent
    else s.put (String.ofList run)) s

/-- Writes pieces between single quotes; `first` tells that none is written yet. -/
def singlePieces (indent : Nat) (folds : Bool) (first : Bool) : List (List Char) → Sheet → Sheet
  | [], s => s
  | run :: rest, s =>
    let s :=
      if run.head? = some '\n' then
        ((run.foldl (fun s _ => s.breakLine) s).breakLine).indentTo indent
      else if run = [' '] && folds && !first && !rest.isEmpty && width < s.column then
        s.indentTo indent
      else s.put (Text.replace "'" "''" (String.ofList run))
    singlePieces indent folds false rest s

def single (s : Sheet) (indent : Nat) (folds : Bool) (text : String) : Sheet :=
  (singlePieces indent folds true (runs text.toList) (s.spacedMark "'")).mark "'"

/-- The characters with an escape by one letter. -/
def letterEscapes : List (Nat × Char) :=
  [(0x00, '0'), (0x07, 'a'), (0x08, 'b'), (0x09, 't'), (0x0A, 'n'), (0x0B, 'v'), (0x0C, 'f'),
   (0x0D, 'r'), (0x1B, 'e'), (0x22, '"'), (0x5C, '\\'), (0x85, 'N'), (0xA0, '_'), (0x2028, 'L'),
   (0x2029, 'P')]

/-- The escape of a code point between double quotes. -/
def escapeOf (n : Nat) : String :=
  let hex (width : Nat) := String.ofList ((Text.digits 16 width n).map Char.toUpper)
  match letterEscapes.lookup n with
  | some letter => String.ofList ['\\', letter]
  | none =>
    if n ≤ 0xFF then "\\x" ++ hex 2 else if n ≤ 0xFFFF then "\\u" ++ hex 4 else "\\U" ++ hex 8

def escape (c : Char) : String := escapeOf (Text.code c)

/-- Whether a character has to be escaped between double quotes. -/
def isEscaped (c : Char) : Bool :=
  c = '"' || c = '\\' || !(0x20 ≤ c.toNat && c.toNat ≤ 0x7E)

/-- Breaks the line inside of double quotes; a space that comes next is kept by an escape. -/
def foldDouble (s : Sheet) (indent : Nat) (next : Option Char) : Sheet :=
  let s := (s.put "\\").resume indent
  if next = some ' ' then s.put "\\" else s

/-- Writes characters between double quotes. `pending` holds those that are not written yet, last one
first, and `first` tells that there was none yet. A line is broken before a space, or where nothing
is pending, when the line would be full with what is pending. -/
def doubleChars (indent : Nat) (folds : Bool) (first : Bool) (pending : List Char) :
    List Char → Sheet → Sheet
  | [], s => s.put (String.ofList pending.reverse)
  | c :: rest, s =>
    let inside := folds && !first && !rest.isEmpty
    if isEscaped c then
      let s := (s.put (String.ofList pending.reverse)).put (escape c)
      let s := if inside && width + 1 < s.column then s.foldDouble indent rest.head? else s
      doubleChars indent folds false [] rest s
    else if inside && (c = ' ' || pending.isEmpty) && width < s.column + pending.length then
      let s := (s.put (String.ofList pending.reverse)).foldDouble indent (some c)
      doubleChars indent folds false [c] rest s
    else doubleChars indent folds false (c :: pending) rest s

def double (s : Sheet) (indent : Nat) (folds : Bool) (text : String) : Sheet :=
  (doubleChars indent folds true [] text.toList (s.spacedMark "\"")).mark "\""

/-- Writes a text in lines of their own; each line of the text is ended. -/
def literal (s : Sheet) (indent : Nat) (text : String) : Sheet :=
  ((Text.pieces '\n' text).dropLast).foldl
    (fun s line => ((s.indentTo indent).put line).breakLine) ((s.spacedMark "|").breakLine)

/-- Writes a scalar. `indent` is the column of lines that follow the first one, and `folds` tells
whether there may be any. -/
def scalar (s : Sheet) (indent : Nat) (folds : Bool) (p : Spelled) : Sheet :=
  let s := if p.showsTag then s.spacedMark p.tagName else s
  match p.style with
  | .plain => s.plain indent folds p.text
  | .single => s.single indent folds p.text
  | .double => s.double indent folds p.text
  | .literal => s.literal indent p.text

end Sheet

end SchemaClosure.Yaml
