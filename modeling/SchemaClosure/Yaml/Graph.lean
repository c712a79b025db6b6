import SchemaClosure.Document.Fault
import SchemaClosure.Document.Scalar
import SchemaClosure.Yaml.Tag

/-!
# The nodes of a document

A document is a graph of nodes: scalars with their text, lists, and mappings whose keys are nodes, too. The
nodes are numbered, and a list or mapping holds the numbers of its parts, so that a reference is the number of
the node that it stands for. A node may be reached along several ways, also from itself.

Merge keys are resolved in the graph (`Graph.flatten`). The entries that they bring in stand before the own
entries of a mapping, those of earlier mappings of a list behind those of later ones, so that own entries and
earlier mappings win.
-/

namespace SchemaClosure.Yaml

/-- What a node holds. Parts are given by their numbers. -/
inductive Node.Content where
  | text (s : String)
  | items (parts : List Nat)
  | entries (parts : List (Nat × Nat))
  deriving Repr, Inhabited

structure Node where
  tag : Tag
  /-- An anchor stands at the node or around it, so that there may be several ways to it. -/
  shared : Bool
  content : Node.Content
  deriving Repr

namespace Node

def empty (shared : Bool) : Node := ⟨.null, shared, .text ""⟩

end Node

instance : Inhabited Node := ⟨.empty false⟩

/-- The nodes of a document, and its number among the documents. -/
structure Graph where
  document : Nat
  nodes : Array Node
  deriving Repr

namespace Graph

def node (g : Graph) (n : Nat) : Node := g.nodes.getD n default

/-- The graph with one more node, and the number of it. -/
def add (g : Graph) (node : Node) : Nat × Graph :=
  (g.nodes.size, { g with nodes := g.nodes.push node })

def modify (g : Graph) (n : Nat) (f : Node → Node) : Graph :=
  { g with nodes := g.nodes.modify n f }

/-- The graph with the content of a node replaced. -/
def fill (g : Graph) (n : Nat) (content : Node.Content) : Graph :=
  g.modify n ({ · with content })

/-- The mark of a node that there may be several ways to. -/
def mark? (g : Graph) (n : Nat) : Option Mark :=
  if (g.node n).shared then some ⟨g.document, n⟩ else none

def entryCount (g : Graph) : Nat :=
  g.nodes.foldl (fun count node =>
    match node.content with
    | .entries parts => count + parts.length
    | _ => count) 0

/-- The first entry with a merge key, between the entries before and behind it. -/
def cutMerge? (g : Graph) : List (Nat × Nat) → Option (List (Nat × Nat) × Nat × List (Nat × Nat))
  | [] => none
  | (key, value) :: rest =>
    if (g.node key).tag = .merge then some ([], value, rest)
    else (g.cutMerge? rest).map fun (before, v, after) => ((key, value) :: before, v, after)

/-- The graph where value keys stand for their text. -/
def nameKeys (g : Graph) (entries : List (Nat × Nat)) : Graph :=
  entries.foldl (fun g (key, _) =>
    if (g.node key).tag = .value then g.modify key ({ · with tag := .str }) else g) g

mutual

/-- The graph where a mapping holds what its merge keys bring in, in front of its other entries.
`brought` is what earlier ones have brought. Each step takes away a merge key, so that `fuel` must exceed
the number of these. -/
def flattenFrom : Nat → List (Nat × Nat) → Nat → Graph → Except Fault Graph
  | 0, _, _, _ => .error .malformed
  | fuel + 1, brought, n, g =>
    match (g.node n).content with
    | .entries entries =>
      match g.cutMerge? entries with
      | none => .ok ((g.nameKeys entries).fill n (.entries (brought ++ entries)))
      | some (before, value, after) => do
        let (more, g) ← bring fuel value (g.fill n (.entries (before ++ after)))
        flattenFrom fuel (brought ++ more) n g
    | _ => .error .malformed

/-- The entries that the value of a merge key brings in: those of a mapping, or of the mappings of a
list, the last ones first. -/
def bring : Nat → Nat → Graph → Except Fault (List (Nat × Nat) × Graph)
  | 0, _, _ => .error .malformed
  | fuel + 1, value, g =>
    let flat (n : Nat) (g : Graph) : Except Fault (List (Nat × Nat) × Graph) := do
      let g ← flattenFrom fuel [] n g
      match (g.node n).content with
      | .entries entries => return (entries, g)
      | _ => throw .malformed
    match (g.node value).content with
    | .entries _ => flat value g
    | .items parts =>
      parts.foldlM (fun (brought, g) n => do
        let (more, g) ← flat n g
        return (more ++ brought, g)) ([], g)
    | .text _ => .error .malformed

end

/-- The graph where a mapping holds what its merge keys bring in. -/
def flatten (fuel n : Nat) (g : Graph) : Except Fault Graph :=
  flattenFrom (2 * fuel + 2) [] n g

/-- The text of a scalar, or of what stands under the first value key of a mapping. -/
def text (g : Graph) : Nat → Nat → Except Fault String
  | 0, _ => .error .endless
  | fuel + 1, n =>
    match (g.node n).content with
    | .text s => .ok s
    | .items _ => .error .malformed
    | .entries entries =>
      match entries.find? fun (key, _) => (g.node key).tag = .value with
      | some (_, value) => g.text fuel value
      | none => .error .malformed

end Graph

end SchemaClosure.Yaml
