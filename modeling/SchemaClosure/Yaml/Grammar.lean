import SchemaClosure.Yaml.Graph
import SchemaClosure.Yaml.Token.Lexer

/-!
# Grammar

Reads the graph of a document from its tokens. A reference stands for the node of its anchor. An anchor
may be set only once, and a reference must follow it; inside of the list or mapping at the anchor it leads
back to this. A node at or below an anchor is shared.
-/

namespace SchemaClosure.Yaml

/-- The state between tokens: what is left, the fault behind it, the stems of the handles of tags, the
nodes of the anchors that are set, and the nodes so far. -/
structure Grammar where
  rest : List Token
  fault : Option Fault
  handles : List (String × String)
  anchors : List (String × Nat)
  graph : Graph

/-- The anchor and the tag in front of a node. -/
structure Properties where
  anchor : Option String
  tag : Option String

namespace Grammar

/-- The next token; at the end of the tokens the fault that ended them is reported. -/
def peek (g : Grammar) : Except Fault (Option Token) :=
  match g.rest, g.fault with
  | t :: _, _ => .ok (some t)
  | [], some fault => .error fault
  | [], none => .ok none

def next (g : Grammar) : Grammar := { g with rest := g.rest.drop 1 }

/-- Passes the next token, which must be this one. -/
def expect (g : Grammar) (t : Token) : Except Fault Grammar := do
  if (← g.peek) = some t then return g.next else throw .malformed

/-- Whether one of some tokens comes next. -/
def sees (g : Grammar) (tokens : List Token) : Except Fault Bool := do
  return (← g.peek).any tokens.contains

/-- The full name of a tag. -/
def tagName (g : Grammar) (handle : Option String) (suffix : String) : Except Fault String :=
  match handle with
  | none => .ok suffix
  | some handle =>
    match g.handles.lookup handle with
    | some stem => .ok (stem ++ suffix)
    | none => .error .malformed

def anchor? (g : Grammar) : Except Fault (Option String × Grammar) := do
  match ← g.peek with
  | some (.anchor name) => return (some name, g.next)
  | _ => return (none, g)

def tag? (g : Grammar) : Except Fault (Option (Option String × String) × Grammar) := do
  match ← g.peek with
  | some (.tag handle suffix) => return (some (handle, suffix), g.next)
  | _ => return (none, g)

/-- Reads an anchor and a tag, in either order. -/
def properties (g : Grammar) : Except Fault (Properties × Grammar) := do
  let (first, g) ← g.anchor?
  let (tag, g) ← g.tag?
  let (anchor, g) ← if first.isNone && tag.isSome then g.anchor? else pure (first, g)
  match tag with
  | none => return (⟨anchor, none⟩, g)
  | some (handle, suffix) => return (⟨anchor, some (← g.tagName handle suffix)⟩, g)

/-- The tag of a scalar: as given, else by its text if it is plain, else that of texts. A tag of one
exclamation mark alone lets every scalar count as plain. -/
def scalarTag (given : Option String) (text : String) (plain : Bool) : Tag :=
  match given with
  | some "!" => Tag.ofPlain text
  | some name => Tag.ofName name
  | none => if plain then Tag.ofPlain text else .str

/-- The tag of a collection: as given, else the one of its form. -/
def collectionTag (given : Option String) (own : Tag) : Tag :=
  match given with
  | none => own
  | some "!" => own
  | some name => Tag.ofName name

def hasAnchor (g : Grammar) (properties : Properties) : Bool :=
  properties.anchor.any fun name => (g.anchors.lookup name).isSome

/-- The state with one more node, which the anchor among the properties stands for. -/
def add (g : Grammar) (properties : Properties) (node : Node) : Nat × Grammar :=
  let (n, graph) := g.graph.add node
  (n, { g with graph, anchors := (properties.anchor.toList.map (·, n)) ++ g.anchors })

/-- The state with one more node where nothing is written. -/
def addEmpty (g : Grammar) (shared : Bool) : Nat × Grammar :=
  g.add ⟨none, none⟩ (.empty shared)

/-- The state with the content of a node filled in. -/
def fill (g : Grammar) (n : Nat) (content : Node.Content) : Grammar :=
  { g with graph := g.graph.fill n content }

/-- A node of which only properties are written. -/
def emptyNode (properties : Properties) (shared : Bool) (g : Grammar) : Except Fault (Nat × Grammar) :=
  if properties.anchor.isNone && properties.tag.isNone then .error .malformed
  else if g.hasAnchor properties then .error .malformed
  else .ok (g.add properties ⟨scalarTag properties.tag "" true, shared, .text ""⟩)

mutual

/-- Reads a node. `block` allows block collections, `indentless` a block sequence that is not
indented further than the mapping that holds it, and `shared` tells that an anchor is around. -/
def node (block indentless shared : Bool) : Nat → Grammar → Except Fault (Nat × Grammar)
  | 0, _ => .error .malformed
  | fuel + 1, g => do
    match ← g.peek with
    | some (.reference name) =>
      match g.anchors.lookup name with
      | some n => return (n, g.next)
      | none => throw .malformed
    | _ =>
      let (properties, g) ← g.properties
      let next ← g.peek
      let shared := shared || properties.anchor.isSome
      let list (g : Grammar) (read : Grammar → Except Fault (List Nat × Grammar)) := do
        if g.hasAnchor properties then throw .malformed
        let (n, g) := g.add properties ⟨collectionTag properties.tag .list, shared, .items []⟩
        let (parts, g) ← read g
        return (n, g.fill n (.items parts))
      let mapping (g : Grammar) (read : Grammar → Except Fault (List (Nat × Nat) × Grammar)) := do
        if g.hasAnchor properties then throw .malformed
        let (n, g) := g.add properties ⟨collectionTag properties.tag .map, shared, .entries []⟩
        let (parts, g) ← read g
        return (n, g.fill n (.entries parts))
      if indentless && next = some .blockEntry then list g (indentlessSequence shared fuel)
      else match next with
        | some (.scalar text plain) =>
          if g.hasAnchor properties then throw .malformed
          return g.next.add properties ⟨scalarTag properties.tag text plain, shared, .text text⟩
        | some .flowSequenceStart => list g.next (flowSequence shared true fuel)
        | some .flowMappingStart => mapping g.next (flowMapping shared true fuel)
        | some .blockSequenceStart =>
          if block then list g.next (blockSequence shared fuel) else emptyNode properties shared g
        | some .blockMappingStart =>
          if block then mapping g.next (blockMapping shared fuel) else emptyNode properties shared g
        | _ => emptyNode properties shared g

/-- Reads a node unless one of some tokens comes next, which leave it empty. -/
def optionalNode (block indentless shared : Bool) (ends : List Token) :
    Nat → Grammar → Except Fault (Nat × Grammar)
  | 0, _ => .error .malformed
  | fuel + 1, g => do
    if ← g.sees ends then return g.addEmpty shared else node block indentless shared fuel g

def blockSequence (shared : Bool) : Nat → Grammar → Except Fault (List Nat × Grammar)
  | 0, _ => .error .malformed
  | fuel + 1, g => do
    match ← g.peek with
    | some .blockEntry =>
      let (item, g) ← optionalNode true false shared [.blockEntry, .blockEnd] fuel g.next
      let (items, g) ← blockSequence shared fuel g
      return (item :: items, g)
    | _ => return ([], ← g.expect .blockEnd)

/-- Reads the entries of a block sequence that is not indented; it ends with its last entry. -/
def indentlessSequence (shared : Bool) : Nat → Grammar → Except Fault (List Nat × Grammar)
  | 0, _ => .error .malformed
  | fuel + 1, g => do
    match ← g.peek with
    | some .blockEntry =>
      let (item, g) ←
        optionalNode true false shared [.blockEntry, .key, .value, .blockEnd] fuel g.next
      let (items, g) ← indentlessSequence shared fuel g
      return (item :: items, g)
    | _ => return ([], g)

def blockMapping (shared : Bool) : Nat → Grammar → Except Fault (List (Nat × Nat) × Grammar)
  | 0, _ => .error .malformed
  | fuel + 1, g => do
    match ← g.peek with
    | some .key =>
      let (key, g) ← optionalNode true true shared [.key, .value, .blockEnd] fuel g.next
      let (value, g) ←
        if ← g.sees [.value] then
          optionalNode true true shared [.key, .value, .blockEnd] fuel g.next
        else pure (g.addEmpty shared)
      let (entries, g) ← blockMapping shared fuel g
      return ((key, value) :: entries, g)
    | _ => return ([], ← g.expect .blockEnd)

/-- Reads the value behind a colon, if there is one, in a flow collection that `closing` ends. -/
def flowValue (shared : Bool) (closing : Token) : Nat → Grammar → Except Fault (Nat × Grammar)
  | 0, _ => .error .malformed
  | fuel + 1, g => do
    if ← g.sees [.value] then optionalNode false false shared [.flowEntry, closing] fuel g.next
    else return g.addEmpty shared

/-- Reads the entries of a flow sequence up to its end; a key makes an entry a mapping of its own. -/
def flowSequence (shared first : Bool) : Nat → Grammar → Except Fault (List Nat × Grammar)
  | 0, _ => .error .malformed
  | fuel + 1, g => do
    if ← g.sees [.flowSequenceEnd] then return ([], g.next)
    let g ← if first then pure g else g.expect .flowEntry
    match ← g.peek with
    | some .key =>
      let (n, g) := g.add ⟨none, none⟩ ⟨.map, shared, .entries []⟩
      let (key, g) ←
        optionalNode false false shared [.value, .flowEntry, .flowSequenceEnd] fuel g.next
      let (value, g) ← flowValue shared .flowSequenceEnd fuel g
      let (items, g) ← flowSequence shared false fuel (g.fill n (.entries [(key, value)]))
      return (n :: items, g)
    | some .flowSequenceEnd => return ([], g.next)
    | _ =>
      let (item, g) ← node false false shared fuel g
      let (items, g) ← flowSequence shared false fuel g
      return (item :: items, g)

/-- Reads the entries of a flow mapping up to its end; a node without a key is one without value. -/
def flowMapping (shared first : Bool) :
    Nat → Grammar → Except Fault (List (Nat × Nat) × Grammar)
  | 0, _ => .error .malformed
  | fuel + 1, g => do
    if ← g.sees [.flowMappingEnd] then return ([], g.next)
    let g ← if first then pure g else g.expect .flowEntry
    match ← g.peek with
    | some .key =>
      let (key, g) ←
        optionalNode false false shared [.value, .flowEntry, .flowMappingEnd] fuel g.next
      let (value, g) ← flowValue shared .flowMappingEnd fuel g
      let (entries, g) ← flowMapping shared false fuel g
      return ((key, value) :: entries, g)
    | some .flowMappingEnd => return ([], g.next)
    | _ =>
      let (key, g) ← node false false shared fuel g
      let (value, g) := g.addEmpty shared
      let (entries, g) ← flowMapping shared false fuel g
      return ((key, value) :: entries, g)

end

/-- The handles that need no directive. -/
def standardHandles : List (String × String) := [("!", "!"), ("!!", standardStem)]

/-- Reads directives; `version` tells whether the version is given already. -/
def directives (version : Bool) : Nat → Grammar → Except Fault Grammar
  | 0, g => .ok g
  | fuel + 1, g => do
    match ← g.peek with
    | some (.directive (.version major)) =>
      if version || major ≠ 1 then throw .malformed else directives true fuel g.next
    | some (.directive (.tag handle stem)) =>
      if (g.handles.lookup handle).isSome then throw .malformed
      else directives version fuel { g.next with handles := (handle, stem) :: g.handles }
    | some (.directive .other) => directives version fuel g.next
    | _ => return g

/-- Reads the end of a document; nothing but such ends may follow. What follows is read up to the start of
the next document before it is refused. -/
def documentEnd : Nat → Grammar → Except Fault Graph
  | 0, _ => .error .malformed
  | fuel + 1, g => do
    match ← g.peek with
    | none => return g.graph
    | some .documentEnd => documentEnd fuel g.next
    | some _ =>
      let g ← { g with handles := [] }.directives false fuel
      let _ ← g.expect .documentStart
      throw .malformed

/-- Reads the only document of a text, if there is one: its graph and the number of its root. -/
def document? (g : Grammar) : Except Fault (Option (Graph × Nat)) := do
  let fuel := 4 * g.rest.length + 8
  let start ← g.peek
  match start with
  | none => return none
  | some t =>
    let explicit := match t with
      | .directive _ => true
      | .documentStart => true
      | _ => false
    let (root, g) ←
      if explicit then do
        let g ← g.directives false fuel
        let g ← g.expect .documentStart
        let g := { g with handles := g.handles ++ standardHandles }
        match ← g.peek with
        | none => pure (g.addEmpty false)
        | some (.directive _) => pure (g.addEmpty false)
        | some .documentStart => pure (g.addEmpty false)
        | some .documentEnd => pure (g.addEmpty false)
        | some _ => node true false false fuel g
      else node true false false fuel { g with handles := standardHandles }
    return some (← g.documentEnd fuel, root)

end Grammar

/-- The graph of the only document of a text and the number of its root; an empty text has none.
`document` is the number of the document in the marks of its nodes. -/
def Graph.ofText? (document : Nat) (text : String) : Except Fault (Option (Graph × Nat)) :=
  let tokens := Tokens.of text
  Grammar.document? ⟨tokens.list, tokens.fault, [], [], ⟨document, #[]⟩⟩

end SchemaClosure.Yaml
