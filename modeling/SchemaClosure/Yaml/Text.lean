import SchemaClosure.Document.Fault
import SchemaClosure.Document.Value
import SchemaClosure.Yaml.Sharing
import SchemaClosure.Yaml.Style

/-!
# YAML text

The block form of a value, indented by two spaces. The items of a list that is the value of a key
stand in the column of the key. Empty lists and mappings are written by brackets. A value that occurs
more than once is written at its first place with an anchor, and elsewhere as a reference to it.
A key that is empty, too long or has several lines is written behind a question mark.
-/

namespace SchemaClosure.Yaml

/-- The sheet, the marks of the values that have anchors, and those that are written already. -/
structure Page where
  sheet : Sheet
  anchored : List Mark
  written : List Mark
  deriving Repr

/-- What a mark requires at a place. -/
inductive Reference where
  /-- The value is written here and nowhere else. -/
  | none
  /-- The value is written here with an anchor. -/
  | anchor (name : String)
  /-- The value is written elsewhere. -/
  | reference (name : String)
  deriving DecidableEq, Repr

namespace Page

def anchorName (place : Nat) : String :=
  "id" ++ Text.decimal 3 (place + 1)

/-- What a mark requires next. -/
def referenceOf (p : Page) : Option Mark → Reference
  | Option.none => .none
  | some m =>
    if p.anchored.contains m then
      let name := anchorName (p.anchored.idxOf m)
      if p.written.contains m then .reference name else .anchor name
    else .none

/-- The page with a change to its sheet. -/
def onSheet (p : Page) (f : Sheet → Sheet) : Page := { p with sheet := f p.sheet }

/-- Writes a reference, or an anchor and what `body` writes behind it. -/
def shared (p : Page) (mark : Option Mark) (body : Page → Page) : Page :=
  match p.referenceOf mark with
  | .none => body p
  | .anchor name =>
    body { p.onSheet (·.spacedMark ("&" ++ name)) with written := mark.toList ++ p.written }
  | .reference name => p.onSheet (·.spacedMark ("*" ++ name))

def scalar (p : Page) (indent : Nat) (folds : Bool) (x : Scalar) : Page :=
  p.shared (markOf? x) fun p => p.onSheet (·.scalar indent folds (.of x))

def fitsKey (p : Page) (x : Scalar) : Bool :=
  match p.referenceOf (markOf? x) with
  | .none => (Spelled.of x).fitsKey 0
  | .anchor name => (Spelled.of x).fitsKey name.length
  | .reference _ => true

def key (p : Page) (indent : Nat) (x : Scalar) : Page :=
  let p := p.onSheet (·.indentTo indent)
  if p.fitsKey x then (p.scalar (indent + 2) false x).onSheet (·.mark ":")
  else
    let p := (p.onSheet (·.entryMark "?")).scalar (indent + 2) true x
    p.onSheet fun s => (s.indentTo indent).entryMark ":"

mutual

/-- Writes a value. Its entries stand at column `indent`, or at column `outer` if it is a list behind
a key on the same line. -/
def value (outer : Option Nat) (indent : Nat) (p : Page) : Value → Page
  | .scalar x => p.scalar indent true x
  | .list mark items =>
    p.shared mark fun p =>
      if items.isEmpty then p.onSheet fun s => (s.spacedMark "[").mark "]"
      else
        let column := if p.sheet.fresh then indent else outer.getD indent
        p.items column items
  | .mapping mark entries =>
    p.shared mark fun p =>
      if entries.isEmpty then p.onSheet fun s => (s.spacedMark "\x7b").mark "\x7d"
      else p.entries indent entries
  | .set mark elements =>
    p.shared mark fun p =>
      let p := p.onSheet (·.spacedMark "!!set")
      if elements.isEmpty then p.onSheet fun s => (s.spacedMark "\x7b").mark "\x7d"
      else elements.foldl (fun p x => (p.key indent x).scalar (indent + 2) true .null) p
  | .knot _ body => p.value outer indent body
  | .again mark => p.shared (some mark) id

def items (indent : Nat) (p : Page) : List Value → Page
  | [] => p
  | v :: rest =>
    ((p.onSheet fun s => (s.indentTo indent).entryMark "-").value none (indent + 2) v).items indent rest

def entries (indent : Nat) (p : Page) : List (Scalar × Value) → Page
  | [] => p
  | (k, v) :: rest => ((p.key indent k).value (some indent) (indent + 2) v).entries indent rest

end

end Page

/-- The YAML text of a value. -/
def render (v : Value) : String :=
  ((Page.value none 0 ⟨.blank, (Sharing.of v).shared, []⟩ v).sheet.indentTo 0).text

/-- The YAML text of a value whose scalars all have a text. -/
def render? (v : Value) : Except Unwritable String :=
  if (Sharing.of v).writable then .ok (render v) else .error .numberTooLong

end SchemaClosure.Yaml
