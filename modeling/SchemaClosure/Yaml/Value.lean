import SchemaClosure.Document.Value
import SchemaClosure.Yaml.Reading

/-!
# Values of documents in YAML

The value of a text, put together from what its nodes stand for. A list or mapping that is met again inside
of itself becomes a knot. A part that does not refer to anything around it is put together once.
-/

namespace SchemaClosure.Yaml

namespace Reading

/-- A value, and the marks of the knots around it that it refers to. -/
structure Open where
  value : Value
  knots : List Mark

/-- The values that are put together already, by the numbers of their nodes. -/
abbrev Known := Array (Option Value)

/-- The marks of some values without repetitions. -/
def knotsOf (parts : List Open) : List Mark :=
  parts.foldl (fun knots part => part.knots.foldl (fun knots m => knots.insert m) knots) []

/-- The value that stands at a node, tied to a knot if it refers to itself. -/
def Open.tied (v : Open) (mark : Mark) : Open :=
  if v.knots.contains mark then ⟨.knot mark v.value, v.knots.erase mark⟩ else v

/-- The value of a node. `around` are the nodes around it, and `depth` bounds their number. -/
def valueOf (r : Reading) : Nat → List Nat → Nat → StateM Known Open
  | 0, _, _ => return ⟨.null, []⟩
  | depth + 1, around, n => do
    if let some v := ((← get)[n]?).join then return ⟨v, []⟩
    let mark : Mark := ⟨r.graph.document, n⟩
    if around.contains n then return ⟨.again mark, [mark]⟩
    let mark? := r.graph.mark? n
    let inner := valueOf r depth (n :: around)
    let v : Open ←
      match r.part? n with
      | some (.scalar s) => pure ⟨.scalar s, []⟩
      | some (.elements parts) => pure ⟨.set mark? parts, []⟩
      | some (.items parts) => do
        let items ← parts.mapM inner
        pure ⟨.list mark? (items.map (·.value)), knotsOf items⟩
      | some (.entries parts) => do
        let values ← parts.mapM fun (_, part) => inner part
        pure ⟨.mapping mark? ((parts.map (·.1)).zip (values.map (·.value))), knotsOf values⟩
      | some (.pairs parts) => do
        let keys ← parts.mapM fun (key, _) => inner key
        let values ← parts.mapM fun (_, part) => inner part
        let pairs := (keys.zip values).map fun (k, v) => Value.list none [k.value, v.value]
        pure ⟨.list mark? pairs, knotsOf (keys ++ values)⟩
      | _ => pure ⟨.null, []⟩
    let v := v.tied mark
    if v.knots.isEmpty then modify (·.setIfInBounds n (some v.value))
    return v

end Reading

/-- The value of a text; an empty text denotes null. `document` is the number of the document in the marks of
its parts. -/
def parse (document : Nat) (text : String) : Except Fault Value := do
  match ← Graph.ofText? document text with
  | none => return .null
  | some (g, root) =>
    let r ← Reading.ofGraph g root
    let size := g.nodes.size
    let (v, _) := (r.valueOf (size + 1) [] root).run (Array.replicate size none)
    return v.value

end SchemaClosure.Yaml
