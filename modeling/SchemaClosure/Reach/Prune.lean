import SchemaClosure.Reach.Walk

/-!
# Pruning a schema

Dropping what is not reachable. A child that is named in the set of its namespace is kept whole.
Any other namespace stays only while the set has an entry for it or for something below it, and its
children are pruned in the same way; any other type goes.
-/

namespace SchemaClosure

/-- Whether the set has an entry for the namespace of this full name or for one below it. -/
def ReachableNames.leadsFrom (r : ReachableNames) (fullName : String) : Bool :=
  r.any fun (n, _) => n == fullName || Text.startsWith (fullName ++ ".") n

mutual

/-- What stays of a child of a namespace for which `required` are the reachable names. -/
def Node.prune (r : ReachableNames) (required : List String) : Node → Option Node
  | .type t => if required.contains t.name then some (.type t) else none
  | .space name fullName options children =>
    if required.contains name then some (.space name fullName options children)
    else if r.leadsFrom fullName then
      some (.space name fullName options (Node.pruneAll r (r.names fullName) children))
    else none

/-- What stays of the children of a namespace for which `required` are the reachable names. -/
def Node.pruneAll (r : ReachableNames) (required : List String) : List Node → List Node
  | [] => []
  | node :: rest => (node.prune r required).toList ++ Node.pruneAll r required rest

end

namespace Schema

def prune (schema : Schema) (r : ReachableNames) : Schema :=
  ⟨(schema.namespaces.filter fun ns => r.leadsFrom ns.fullName).map fun ns =>
    { ns with children := Node.pruneAll r (r.names ns.fullName) ns.children }⟩

/-- The reachable names of several requests and the schema pruned to them. -/
def filterAll (schema : Schema) (requests : List Request) :
    Except MissingType (ReachableNames × Schema) :=
  match schema.collectAll requests .start with
  | (_, some missing) => .error missing
  | (s, none) => .ok (s.reachable, schema.prune s.reachable)

/-- The reachable names of one request and the schema pruned to them. -/
def filterOne (schema : Schema) (request : Request) :
    Except MissingType (ReachableNames × Schema) :=
  match schema.collect request .start with
  | (_, some missing) => .error missing
  | (s, none) => .ok (s.reachable, schema.prune s.reachable)

end Schema

end SchemaClosure
