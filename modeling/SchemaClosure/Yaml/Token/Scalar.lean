import SchemaClosure.Text.CodePoint
import SchemaClosure.Yaml.Cursor

/-!
# Scalars in the text

The text of plain, quoted and block scalars. In plain and quoted scalars a single line break is
read as a space and further ones are kept; literal block scalars keep their lines, folded ones join
lines that are not indented further.
-/

namespace SchemaClosure.Yaml

namespace Plain

/-- Whether a colon in front of this character ends a plain scalar. -/
def endsAtColon (inFlow : Bool) (c : Option Char) : Bool :=
  endsMark c || (inFlow && c.any fun c => [',', '[', ']', '\x7b', '\x7d'].contains c)

/-- The number of characters of a plain scalar up to white space or its end. -/
def runLength (inFlow : Bool) : List Char → Nat
  | [] => 0
  | c :: rest =>
    if endsMark (some c) || (c = ':' && endsAtColon inFlow rest.head?)
        || (inFlow && [',', '?', '[', ']', '\x7b', '\x7d'].contains c) then 0
    else runLength inFlow rest + 1

/-- Line breaks and spaces behind the first line break: the breaks, or nothing in front of a
document mark. -/
def breaks : Nat → Cursor → List Char → Option (List Char) × Cursor
  | 0, c, acc => (some acc.reverse, c)
  | fuel + 1, c, acc =>
    if c.peek = some ' ' then breaks fuel c.next acc
    else match c.lineBreak? with
      | none => (some acc.reverse, c)
      | some (b, c) => if c.atDocumentMark then (none, c) else breaks fuel c (b :: acc)

/-- What stands for the white space inside a plain scalar, and whether it holds a line break. -/
def spaces (c : Cursor) : List Char × Bool × Cursor :=
  let (blanks, c) := c.span (· = ' ')
  match c.lineBreak? with
  | none => (blanks, false, c)
  | some (first, c) =>
    if c.atDocumentMark then ([], true, c)
    else match breaks c.rest.length c [] with
      | (none, c) => ([], true, c)
      | (some more, c) =>
        if first ≠ '\n' then (first :: more, true, c)
        else if more.isEmpty then ([' '], true, c)
        else (more, true, c)

/-- Reads runs of characters. `before` is what stands between the last run and this place, `acc` the
text so far, last character first, and `broken` tells whether a line break follows the last run. -/
def runs (inFlow : Bool) (indent : Int) :
    Nat → Cursor → List Char → List Char → Bool → List Char × Bool × Cursor
  | 0, c, _, acc, broken => (acc, broken, c)
  | fuel + 1, c, before, acc, broken =>
    let n := runLength inFlow c.rest
    if c.peek = some '#' || n = 0 then (acc, broken, c)
    else
      let acc := (c.rest.take n).reverse ++ before.reverse ++ acc
      let (between, broken, c) := spaces (c.skip n)
      if between.isEmpty || c.peek = some '#' || (!inFlow && (c.column : Int) < indent) then
        (acc, broken, c)
      else runs inFlow indent fuel c between acc broken

/-- Reads a plain scalar whose lines are indented by at least `indent` outside of brackets. -/
def read (inFlow : Bool) (indent : Int) (c : Cursor) : String × Bool × Cursor :=
  let (acc, broken, c) := runs inFlow indent c.rest.length c [] [] false
  (String.ofList acc.reverse, broken, c)

end Plain

namespace Quoted

def hexValue? (c : Char) : Option Nat :=
  if '0' ≤ c && c ≤ '9' then some (c.toNat - 48)
  else if 'a' ≤ c && c ≤ 'f' then some (c.toNat - 87)
  else if 'A' ≤ c && c ≤ 'F' then some (c.toNat - 55)
  else none

def hexNumber? (n : Nat) (s : List Char) : Option Nat :=
  if s.length < n then none
  else (s.take n).foldl (fun acc c => do return (← acc) * 16 + (← hexValue? c)) (some 0)

/-- The character that an escape of one letter denotes. -/
def escape? : Char → Option Char
  | '0' => some '\x00'
  | 'a' => some '\x07'
  | 'b' => some '\x08'
  | 't' => some '\t'
  | '\t' => some '\t'
  | 'n' => some '\n'
  | 'v' => some '\x0b'
  | 'f' => some '\x0c'
  | 'r' => some '\r'
  | 'e' => some '\x1b'
  | ' ' => some ' '
  | '"' => some '"'
  | '\\' => some '\\'
  | '/' => some '/'
  | 'N' => some '\x85'
  | '_' => some '\xa0'
  | 'L' => some '\u2028'
  | 'P' => some '\u2029'
  | _ => none

/-- The number of hexadecimal digits behind the letter of a numeric escape. -/
def escapeDigits? : Char → Option Nat
  | 'x' => some 2
  | 'u' => some 4
  | 'U' => some 8
  | _ => none

/-- The character that holds the code point of a numeric escape. -/
def numericEscape (code : Nat) : Except Fault Char :=
  if 0x7FFFFFFF < code then .error .tooLarge
  else if 0x10FFFF < code then .error .noSuchCharacter
  else .ok (Text.ofCode code)

def breaks : Nat → Cursor → List Char → Except Fault (List Char × Cursor)
  | 0, _, _ => .error .malformed
  | fuel + 1, c, acc =>
    if c.atDocumentMark then .error .malformed
    else
      let c := c.skipWhile fun x => x = ' ' || x = '\t'
      match c.lineBreak? with
      | none => .ok (acc.reverse, c)
      | some (b, c) => breaks fuel c (b :: acc)

def spaces (c : Cursor) : Except Fault (List Char × Cursor) := do
  let (blanks, c) := c.span fun x => x = ' ' || x = '\t'
  if c.rest.isEmpty then throw .malformed
  match c.lineBreak? with
  | none => return (blanks, c)
  | some (first, c) =>
    let (more, c) ← breaks (c.rest.length + 1) c []
    if first ≠ '\n' then return (first :: more, c)
    else if more.isEmpty then return ([' '], c)
    else return (more, c)

/-- Reads up to white space or the closing quote; `acc` is the text so far, last character first. -/
def run (double : Bool) : Nat → Cursor → List Char → Except Fault (List Char × Cursor)
  | 0, _, _ => .error .malformed
  | fuel + 1, c, acc =>
    match c.rest with
    | [] => .ok (acc, c)
    | x :: rest =>
      if !double && x = '\'' && rest.head? = some '\'' then run double fuel (c.skip 2) ('\'' :: acc)
      else if double && x = '\\' then
        match rest with
        | [] => .error .malformed
        | e :: rest =>
          match escape? e, escapeDigits? e with
          | some y, _ => run double fuel (c.skip 2) (y :: acc)
          | none, some n =>
            match hexNumber? n rest with
            | none => .error .malformed
            | some code => do
              let y ← numericEscape code
              run double fuel (c.skip (2 + n)) (y :: acc)
          | none, none =>
            match c.next.lineBreak? with
            | none => .error .malformed
            | some (_, c) => do
              let (more, c) ← breaks (c.rest.length + 1) c []
              run double fuel c (more.reverse ++ acc)
      else if x = (if double then '"' else '\'') || endsMark (some x) then .ok (acc, c)
      else run double fuel c.next (x :: acc)

/-- Reads runs and white space up to the closing quote. -/
def runs (double : Bool) : Nat → Cursor → List Char → Except Fault (List Char × Cursor)
  | 0, _, _ => .error .malformed
  | fuel + 1, c, acc => do
    let (acc, c) ← run double (c.rest.length + 1) c acc
    if c.peek = some (if double then '"' else '\'') then return (acc, c.next)
    let (between, c) ← spaces c
    runs double fuel c (between.reverse ++ acc)

def read (double : Bool) (c : Cursor) : Except Fault (String × Cursor) := do
  let (acc, c) ← runs double (c.rest.length + 1) c.next []
  return (String.ofList acc.reverse, c)

end Quoted

namespace Block

/-- What happens to the line breaks at the end of a block scalar: the last one is kept, none is, or
all are. -/
inductive Chomping where
  | clip
  | strip
  | keep
  deriving DecidableEq, Repr

def chomping? : Option Char → Option Chomping
  | some '+' => some .keep
  | some '-' => some .strip
  | _ => none

def digit? (c : Option Char) : Option Nat :=
  c.bind fun c => if '0' ≤ c && c ≤ '9' then some (c.toNat - 48) else none

/-- The chomping and the indentation behind the sign of a block scalar, in either order. -/
def header (c : Cursor) : Except Fault ((Chomping × Option Nat) × Cursor) := do
  let (chomping, increment, c) :=
    match chomping? c.peek with
    | some chomping =>
      let c := c.next
      match digit? c.peek with
      | some n => (chomping, some n, c.next)
      | none => (chomping, none, c)
    | none =>
      match digit? c.peek with
      | some n =>
        let c := c.next
        match chomping? c.peek with
        | some chomping => (chomping, some n, c.next)
        | none => (.clip, some n, c)
      | none => (.clip, none, c)
  if increment = some 0 then throw .malformed
  if !endsWord c.peek then throw .malformed
  let c := c.skipSpaces.skipComment
  if !endsLine c.peek then throw .malformed
  return ((chomping, increment), c.skipBreak)

/-- Empty lines in front of a block scalar: their breaks and the greatest column reached. -/
def leading : Nat → Cursor → List Char → Nat → List Char × Nat × Cursor
  | 0, c, acc, widest => (acc.reverse, widest, c)
  | fuel + 1, c, acc, widest =>
    if c.peek = some ' ' then
      let c := c.next
      leading fuel c acc (max widest c.column)
    else match c.lineBreak? with
      | some (b, c) => leading fuel c (b :: acc) widest
      | none => (acc.reverse, widest, c)

/-- The place behind spaces up to a column. -/
def indentTo (column : Nat) (c : Cursor) : Cursor :=
  c.skip (min (column - c.column) (c.rest.takeWhile (· = ' ')).length)

/-- Empty lines inside a block scalar: their breaks. -/
def breaks (column : Nat) : Nat → Cursor → List Char → List Char × Cursor
  | 0, c, acc => (acc.reverse, c)
  | fuel + 1, c, acc =>
    let c := indentTo column c
    match c.lineBreak? with
    | some (b, c) => breaks column fuel c (b :: acc)
    | none => (acc.reverse, c)

/-- Reads the lines at a column. `before` are the breaks in front of the line and `acc` is the text
so far, last character first. The text comes back with the last line break and the breaks behind
it, both still to be chomped. -/
def lines (folded : Bool) (column : Nat) :
    Nat → Cursor → List Char → List Char → List Char × List Char × List Char × Cursor
  | 0, c, before, acc => (acc, [], before, c)
  | fuel + 1, c, before, acc =>
    if c.column = column && !c.rest.isEmpty then
      let flush := !(c.peek = some ' ' || c.peek = some '\t')
      let (line, c) := c.span (!isBreak ·)
      let acc := line.reverse ++ before.reverse ++ acc
      let (ending, c) :=
        match c.lineBreak? with
        | some (b, c) => ([b], c)
        | none => ([], c)
      let (more, c) := breaks column (c.rest.length + 1) c []
      if c.column = column && !c.rest.isEmpty then
        let joins := folded && ending = ['\n'] && flush && !(c.peek = some ' ' || c.peek = some '\t')
        let acc := if joins then (if more.isEmpty then ' ' :: acc else acc) else ending ++ acc
        lines folded column fuel c more acc
      else (acc, ending, more, c)
    else (acc, [], before, c)

/-- Reads a block scalar from its sign; `indent` is the column of what holds it. -/
def read (folded : Bool) (indent : Int) (c : Cursor) : Except Fault (String × Cursor) := do
  let ((chomping, increment), c) ← header c.next
  let least := (max (indent + 1) 1).toNat
  let (before, column, c) :=
    match increment with
    | none =>
      let (before, widest, c) := leading c.rest.length c [] 0
      (before, max least widest, c)
    | some n =>
      let column := least + n - 1
      let (before, c) := breaks column (c.rest.length + 1) c []
      (before, column, c)
  let (acc, ending, more, c) := lines folded column (c.rest.length + 1) c before []
  let tail :=
    match chomping with
    | .clip => ending
    | .strip => []
    | .keep => ending ++ more
  return (String.ofList (acc.reverse ++ tail), c)

end Block

end SchemaClosure.Yaml
