import SchemaClosure.Yaml.Token.Property

/-!
# Tokens of a text

The text is read token by token. What stands at a place decides the token, together with the
indentation of the collections that are open, the brackets that are open, and whether a key may
start here. A key without a sign of its own is seen only at the colon behind it. Until then the
place where it may have started is remembered, one for each depth of brackets; it is given up when
the line ends or more than 1024 characters have passed.
-/

namespace SchemaClosure.Yaml

/-- A place where a key may have started: the number of its token, the depth of brackets, and
whether only a key can stand there. -/
structure KeyStart where
  token : Nat
  depth : Nat
  required : Bool
  index : Nat
  line : Nat
  column : Nat
  deriving Repr

/-- The state between tokens. `pushed` are the tokens so far, the last one first, and `indent` is the
column of the innermost open block collection, `-1` outside of all. -/
structure Lexer where
  cursor : Cursor
  depth : Nat
  indent : Int
  indents : List Int
  keyAllowed : Bool
  keyStarts : List KeyStart
  pushed : List Token
  count : Nat
  deriving Repr

namespace Lexer

def start (text : String) : Lexer :=
  ⟨Cursor.start text, 0, -1, [], true, [], [], 0⟩

def push (l : Lexer) (t : Token) : Lexer :=
  { l with pushed := t :: l.pushed, count := l.count + 1 }

/-- The state with a token in front of the token of a number. -/
def insert (l : Lexer) (number : Nat) (t : Token) : Lexer :=
  let behind := l.count - number
  { l with
    pushed := l.pushed.take behind ++ t :: l.pushed.drop behind
    count := l.count + 1 }

/-- The state at another place. -/
def moveTo (l : Lexer) (c : Cursor) : Lexer := { l with cursor := c }

/-- Passes spaces, comments and line breaks; outside of brackets a key may start on a new line. -/
def passBlank : Nat → Lexer → Lexer
  | 0, l => l
  | fuel + 1, l =>
    let c := l.cursor.skipSpaces.skipComment
    match c.lineBreak? with
    | some (_, c) => passBlank fuel { l with cursor := c, keyAllowed := l.keyAllowed || l.depth = 0 }
    | none => l.moveTo c

/-- Passes everything in front of the next token. -/
def toToken (l : Lexer) : Lexer :=
  let c := l.cursor
  let l := if c.index = 0 && c.peek = some byteOrderMark then l.moveTo c.next else l
  passBlank (l.cursor.rest.length + 1) l

/-- Whether what starts at a place can no longer be a key. -/
def isStale (l : Lexer) (k : KeyStart) : Bool :=
  k.line != l.cursor.line || decide (1024 < l.cursor.index - k.index)

/-- Gives up the starts of keys that can no longer be ones. -/
def dropStale (l : Lexer) : Except Fault Lexer :=
  if l.keyStarts.any fun k => l.isStale k && k.required then .error .malformed
  else .ok { l with keyStarts := l.keyStarts.filter (!l.isStale ·) }

/-- Gives up the start of a key at this depth of brackets. -/
def dropKeyStart (l : Lexer) : Except Fault Lexer :=
  if l.keyStarts.any fun k => k.depth = l.depth && k.required then .error .malformed
  else .ok { l with keyStarts := l.keyStarts.filter (·.depth ≠ l.depth) }

/-- Remembers that a key may start here, if one is allowed. -/
def markKeyStart (l : Lexer) : Except Fault Lexer := do
  if !l.keyAllowed then return l
  let c := l.cursor
  let required := l.depth = 0 && l.indent = c.column
  let l ← l.dropKeyStart
  return { l with keyStarts := ⟨l.count, l.depth, required, c.index, c.line, c.column⟩ :: l.keyStarts }

/-- Closes the block collections that are indented further than a column. -/
def unwindTo (column : Int) : List Int → Lexer → Lexer
  | [], l => l
  | outer :: indents, l =>
    if l.depth = 0 && column < l.indent then
      unwindTo column indents { l.push .blockEnd with indent := outer, indents := indents }
    else l

def unwind (l : Lexer) (column : Int) : Lexer :=
  unwindTo column l.indents l

/-- Opens a block collection at a column if it is indented further than the innermost one. -/
def openBlock (l : Lexer) (column : Nat) (number : Nat) (t : Token) : Lexer :=
  if l.indent < column then
    { l.insert number t with indent := column, indents := l.indent :: l.indents }
  else l

/-- A token of `n` characters at this place. -/
def sign (l : Lexer) (t : Token) (n : Nat) : Lexer :=
  (l.moveTo (l.cursor.skip n)).push t

def documentMark (l : Lexer) (t : Token) : Except Fault Lexer := do
  let l ← (l.unwind (-1)).dropKeyStart
  return { l.sign t 3 with keyAllowed := false }

def openFlow (l : Lexer) (t : Token) : Except Fault Lexer := do
  let l ← l.markKeyStart
  return { l.sign t 1 with depth := l.depth + 1, keyAllowed := true }

def closeFlow (l : Lexer) (t : Token) : Except Fault Lexer := do
  let l ← l.dropKeyStart
  return { l.sign t 1 with depth := l.depth - 1, keyAllowed := false }

def flowEntry (l : Lexer) : Except Fault Lexer := do
  let l ← { l with keyAllowed := true }.dropKeyStart
  return l.sign .flowEntry 1

/-- The sign of an entry of a block sequence. -/
def blockEntry (l : Lexer) : Except Fault Lexer := do
  if l.depth = 0 && !l.keyAllowed then throw .malformed
  let l := if l.depth = 0 then l.openBlock l.cursor.column l.count .blockSequenceStart else l
  let l ← { l with keyAllowed := true }.dropKeyStart
  return l.sign .blockEntry 1

/-- The sign of a key. -/
def explicitKey (l : Lexer) : Except Fault Lexer := do
  if l.depth = 0 && !l.keyAllowed then throw .malformed
  let l := if l.depth = 0 then l.openBlock l.cursor.column l.count .blockMappingStart else l
  let l ← { l with keyAllowed := l.depth = 0 }.dropKeyStart
  return l.sign .key 1

/-- The colon in front of a value. The key token goes in front of what is now known to be a key. -/
def value (l : Lexer) : Except Fault Lexer := do
  match l.keyStarts.find? (·.depth = l.depth) with
  | some k =>
    let l := { l with keyStarts := l.keyStarts.filter (·.depth ≠ l.depth) }
    let l := l.insert k.token .key
    let l := if l.depth = 0 then l.openBlock k.column k.token .blockMappingStart else l
    return { l.sign .value 1 with keyAllowed := false }
  | none =>
    if l.depth = 0 && !l.keyAllowed then throw .malformed
    let l := if l.depth = 0 then l.openBlock l.cursor.column l.count .blockMappingStart else l
    let l ← { l with keyAllowed := l.depth = 0 }.dropKeyStart
    return l.sign .value 1

/-- A token that may start a key and behind which no key may start. -/
def atom (l : Lexer) (read : Cursor → Except Fault (Token × Cursor)) : Except Fault Lexer := do
  let l ← l.markKeyStart
  let (t, c) ← read l.cursor
  return { (l.moveTo c).push t with keyAllowed := false }

/-- A plain scalar; a key may start behind it if it ends with a line break. -/
def plain (l : Lexer) : Except Fault Lexer := do
  let l ← l.markKeyStart
  let (text, broken, c) := Plain.read (l.depth ≠ 0) (l.indent + 1) l.cursor
  return { (l.moveTo c).push (.scalar text true) with keyAllowed := broken }

def block (l : Lexer) (folded : Bool) : Except Fault Lexer := do
  let l ← { l with keyAllowed := true }.dropKeyStart
  let (text, c) ← Block.read folded l.indent l.cursor
  return (l.moveTo c).push (.scalar text false)

/-- Whether a plain scalar can start with a character in front of another one. -/
def startsPlain (inFlow : Bool) (x : Char) (following : Option Char) : Bool :=
  !(endsMark (some x) || "-?:,[]\x7b\x7d#&*!|>'\"%@\x60".toList.contains x)
    || (!endsMark following && (x = '-' || (!inFlow && (x = '?' || x = ':'))))

/-- The state behind the token that starts with `x` at the place. -/
def token (l : Lexer) (x : Char) : Except Fault Lexer :=
  let c := l.cursor
  let following := c.peekAt 1
  let inFlow := l.depth ≠ 0
  if x = '%' && c.column = 0 then do
    let l ← (l.unwind (-1)).dropKeyStart
    let (t, c) ← Property.directive l.cursor
    return { (l.moveTo c).push t with keyAllowed := false }
  else if c.column = 0 && c.atDocumentMark then
    l.documentMark (if x = '-' then .documentStart else .documentEnd)
  else if x = '[' then l.openFlow .flowSequenceStart
  else if x = '\x7b' then l.openFlow .flowMappingStart
  else if x = ']' then l.closeFlow .flowSequenceEnd
  else if x = '\x7d' then l.closeFlow .flowMappingEnd
  else if x = ',' then l.flowEntry
  else if x = '-' && endsMark following then l.blockEntry
  else if x = '?' && (inFlow || endsMark following) then l.explicitKey
  else if x = ':' && (inFlow || endsMark following) then l.value
  else if x = '*' then l.atom fun c => do
    let (name, c) ← Property.name c
    return (.reference name, c)
  else if x = '&' then l.atom fun c => do
    let (name, c) ← Property.name c
    return (.anchor name, c)
  else if x = '!' then l.atom Property.tag
  else if x = '|' && !inFlow then l.block false
  else if x = '>' && !inFlow then l.block true
  else if x = '\'' || x = '"' then l.atom fun c => do
    let (text, c) ← Quoted.read (x = '"') c
    return (.scalar text false, c)
  else if startsPlain inFlow x following then l.plain
  else throw .malformed

/-- The state behind the next token, and whether the text is at its end. -/
def step (l : Lexer) : Except Fault (Lexer × Bool) := do
  let l ← l.toToken.dropStale
  let l := l.unwind l.cursor.column
  match l.cursor.peek with
  | none => return (← (l.unwind (-1)).dropKeyStart, true)
  | some x => return (← l.token x, false)

/-- The tokens in front of the first one that may still turn out to be a key. -/
def settled (l : Lexer) : List Token :=
  l.pushed.reverse.take <|
    ((l.keyStarts.filter (!l.isStale ·)).map (·.token)).foldl min l.count

/-- Reads token by token; every one takes a character, so their number is bounded by that. A fault
hides the tokens that may still turn out to be keys. -/
def run : Nat → Lexer → Tokens
  | 0, l => ⟨l.pushed.reverse, some .malformed⟩
  | fuel + 1, l =>
    match l.step with
    | .error fault => ⟨l.settled, some fault⟩
    | .ok (l, true) => ⟨l.pushed.reverse, none⟩
    | .ok (l, false) => run fuel l

end Lexer

/-- A character that may stand in a text. -/
def isAllowed (c : Char) : Bool :=
  let n := c.toNat
  n = 0x09 || n = 0x0A || n = 0x0D || (0x20 ≤ n && n ≤ 0x7E) || n = 0x85
    || (0xA0 ≤ n && n ≤ 0xD7FF) || (0xE000 ≤ n && n ≤ 0xFFFD) || 0x10000 ≤ n

/-- The tokens of a text; a text with a character that is not allowed has none. -/
def Tokens.of (text : String) : Tokens :=
  if text.toList.all isAllowed then Lexer.run (text.length + 1) (Lexer.start text)
  else ⟨[], some .malformed⟩

end SchemaClosure.Yaml
