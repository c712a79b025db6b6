import SchemaClosure.Yaml.Grammar
import SchemaClosure.Yaml.Scalar

/-!
# Reading nodes

What the nodes of a document stand for, node by node. Nodes are read breadth first from the root, each of
them once, so that of several faults the one that lies least deep is reported, and of those the first one.
The parts of a list or mapping are met when it is read: a scalar takes its value at once, and a list or
mapping waits for its turn. Mapping keys must be scalars, which is known when they are met. Merge keys are
resolved when their mapping is read.
-/

namespace SchemaClosure.Yaml

/-- What a node stands for. The parts of lists and mappings are given by the numbers of their nodes. -/
inductive Reading.Part where
  | scalar (s : Scalar)
  /-- A list or mapping that was met and not read yet. -/
  | waiting
  | items (parts : List Nat)
  | entries (parts : List (Scalar × Nat))
  | elements (parts : List Scalar)
  | pairs (parts : List (Nat × Nat))
  deriving Repr

/-- The graph with the merge keys resolved so far, what its nodes stand for as far as they were met, and the
lists and mappings that wait for their turn: those in `later`, the last one first, behind those in `now`. -/
structure Reading where
  graph : Graph
  parts : Array (Option Reading.Part)
  now : List Nat
  later : List Nat
  deriving Repr

namespace Reading

/-- The state in which no node was met. -/
def start (g : Graph) : Reading := ⟨g, Array.replicate g.nodes.size none, [], []⟩

/-- What a node stands for, if it was met. -/
def part? (r : Reading) (n : Nat) : Option Part := (r.parts[n]?).join

def set (r : Reading) (n : Nat) (part : Part) : Reading :=
  { r with parts := r.parts.setIfInBounds n (some part) }

/-- The scalar of a node. The text of a day or time must be that of the node itself. -/
def scalarOf (g : Graph) (n : Nat) : Except Fault Scalar := do
  let node := g.node n
  let text ← g.text (g.nodes.size + 1) n
  match node.tag, node.content with
  | .timestamp, .entries _ => throw .timeNotText
  | tag, _ => scalarValue (g.mark? n) tag text

/-- Whether a kind of value has parts. -/
def hasParts : Tag → Bool
  | .list => true
  | .map => true
  | .set => true
  | .orderedMap => true
  | .pairs => true
  | _ => false

/-- Meets a node; gives its scalar if it is one. -/
def meet (n : Nat) (r : Reading) : Except Fault (Option Scalar × Reading) :=
  match r.part? n with
  | some (.scalar s) => .ok (some s, r)
  | some _ => .ok (none, r)
  | none =>
    if hasParts (r.graph.node n).tag then
      .ok (none, { r.set n .waiting with later := n :: r.later })
    else
      match (r.graph.node n).tag with
      | .other => .error .malformed
      | .merge => .error .malformed
      | .value => .error .malformed
      | _ => do
        let s ← scalarOf r.graph n
        return (some s, r.set n (.scalar s))

def items (r : Reading) (parts : List Nat) : Except Fault Reading :=
  parts.foldlM (fun r n => do
    let (_, r) ← meet n r
    return r) r

/-- Meets the keys and values of a mapping; gives the entries with their keys. -/
def entries (r : Reading) (parts : List (Nat × Nat)) :
    Except Fault (List (Scalar × Nat) × Reading) :=
  parts.foldlM (fun (entries, r) (key, value) => do
    let (s, r) ← meet key r
    match s with
    | none => throw .malformed
    | some s =>
      let (_, r) ← meet value r
      return (s.put value entries, r)) ([], r)

/-- Meets the keys and values of a list of pairs, each written as a mapping of one entry. -/
def pairs (r : Reading) (parts : List Nat) : Except Fault (List (Nat × Nat) × Reading) := do
  let (pairs, r) ← parts.foldlM (fun (pairs, r) n => do
    match (r.graph.node n).content with
    | .entries [(key, value)] =>
      let (_, r) ← meet key r
      let (_, r) ← meet value r
      return ((key, value) :: pairs, r)
    | _ => throw .malformed) (([], r) : List (Nat × Nat) × Reading)
  return (pairs.reverse, r)

/-- Meets the entries of a mapping once its merge keys are resolved. -/
def mapping (fuel n : Nat) (r : Reading) : Except Fault (List (Scalar × Nat) × Reading) := do
  let graph ← r.graph.flatten fuel n
  match (graph.node n).content with
  | .entries parts => entries { r with graph } parts
  | _ => throw .malformed

/-- Reads a list or mapping. `fuel` bounds the number of merge keys. -/
def read (fuel n : Nat) (r : Reading) : Except Fault Reading := do
  let node := r.graph.node n
  match node.tag, node.content with
  | .list, .items parts => return (← r.items parts).set n (.items parts)
  | .orderedMap, .items parts =>
    let (parts, r) ← r.pairs parts
    return r.set n (.pairs parts)
  | .pairs, .items parts =>
    let (parts, r) ← r.pairs parts
    return r.set n (.pairs parts)
  | .map, .entries _ =>
    let (parts, r) ← r.mapping fuel n
    return r.set n (.entries parts)
  | .set, .entries _ =>
    let (parts, r) ← r.mapping fuel n
    return r.set n (.elements (parts.map (·.1)))
  | _, _ => throw .malformed

/-- Reads all that waits. Each node waits at most once, which bounds the number of steps. -/
def readAll (fuel : Nat) : Nat → Reading → Except Fault Reading
  | 0, r => .ok r
  | steps + 1, r =>
    match r.now, r.later with
    | n :: now, _ => do readAll fuel steps (← read fuel n { r with now })
    | [], [] => .ok r
    | [], later =>
      match later.reverse with
      | [] => .ok r
      | n :: now => do readAll fuel steps (← read fuel n { r with now, later := [] })

/-- Reads a graph from its root on. -/
def ofGraph (g : Graph) (root : Nat) : Except Fault Reading := do
  let (_, r) ← meet root (start g)
  readAll g.entryCount (g.nodes.size + 1) r

end Reading

end SchemaClosure.Yaml
