import SchemaClosure.Schema.LoadError
import SchemaClosure.Schema.Basic

/-!
# Resolving references

What the declared type of a field refers to. A name with a leading dot is taken from the root;
any other name is tried below the namespace of the field, then below each enclosing namespace from
the inside out, and last below the root (`Schema.referent?`). `Schema.resolve` stores
the references in the schema. It goes through the fields in the order of `Schema.types` and stops
at the first one that refers to nothing, leaving that one and all later ones as they were.
-/

namespace SchemaClosure

/-- The names of the types that are built in. -/
def builtinTypes : List String :=
  ["double", "float", "int32", "int64", "uint32", "uint64", "sint32", "sint64", "fixed32",
   "fixed64", "sfixed32", "sfixed64", "bool", "string", "bytes"]

namespace Schema

/-- The address that a dotted name spells from the root, if a type is there. -/
def addressed? (schema : Schema) (fullName : String) : Option TypeAddress :=
  match Text.cutLast? '.' fullName with
  | none => none
  | some (owner, name) =>
    if owner.isEmpty || name.isEmpty then none
    else if (schema.type? ⟨owner, name⟩).isSome then some ⟨owner, name⟩ else none

/-- The dotted names under which a name is tried in a scope, the innermost first. -/
def candidates (scope typeName : String) : List String :=
  let parts := if scope.isEmpty then [] else Text.pieces '.' scope
  (List.range (parts.length + 1)).reverse.map fun depth =>
    Text.join "." (parts.take depth ++ [typeName])

/-- The address that a name refers to in a scope. -/
def referent? (schema : Schema) (scope typeName : String) : Option TypeAddress :=
  match Chars.dropWord? ['.'] typeName.toList with
  | some rest => schema.addressed? (String.ofList rest)
  | none => (candidates scope typeName).findSome? schema.addressed?

/-- Whether a field of a type of this namespace refers to nothing although it should. -/
def isUnresolvable (schema : Schema) (owner : String) (f : Field) : Bool :=
  !builtinTypes.contains f.typeName && (schema.referent? owner f.typeName).isNone

/-- The field with the reference that its type names. -/
def resolveField (schema : Schema) (owner : String) (f : Field) : Field :=
  { f with
    resolved := if builtinTypes.contains f.typeName then none
      else schema.referent? owner f.typeName }

end Schema

namespace Node

mutual

def resolve (schema : Schema) : Node → Node
  | .type t => .type { t with fields := t.fields.map (schema.resolveField t.owner) }
  | .space name fullName options children =>
    .space name fullName options (resolveAll schema children)

def resolveAll (schema : Schema) : List Node → List Node
  | [] => []
  | node :: rest => node.resolve schema :: resolveAll schema rest

end

/-- The number of fields of the types among some nodes. -/
def ownFieldCount (nodes : List Node) : Nat :=
  ((nodes.filterMap Node.type?).flatMap (·.fields)).length

mutual

/-- The number of fields of all types in a node. -/
def fieldCount : Node → Nat
  | .type t => t.fields.length
  | .space _ _ _ children => fieldCountAll children

/-- The number of fields of all types among some nodes and below them. -/
def fieldCountAll : List Node → Nat
  | [] => 0
  | node :: rest => node.fieldCount + fieldCountAll rest

end

/-- Some nodes where the first `n` fields of the types among them are resolved. -/
def resolveTypes (schema : Schema) : Nat → List Node → List Node
  | _, [] => []
  | n, .type t :: rest =>
    .type { t with fields := (t.fields.take n).map (schema.resolveField t.owner) ++ t.fields.drop n }
      :: resolveTypes schema (n - t.fields.length) rest
  | n, .space name fullName options children :: rest =>
    .space name fullName options children :: resolveTypes schema n rest

mutual

/-- A node where the first `n` fields below it are resolved if it is a namespace. In each namespace
the fields of its own types come first. -/
def resolveInner (schema : Schema) (n : Nat) : Node → Node
  | .type t => .type t
  | .space name fullName options children =>
    .space name fullName options
      (resolveTypes schema n (resolveSpaces schema (n - ownFieldCount children) children))

/-- Some nodes where the first `n` fields below the namespaces among them are resolved. -/
def resolveSpaces (schema : Schema) (n : Nat) : List Node → List Node
  | [] => []
  | node :: rest =>
    let inner := (node.space?.map fun ns => fieldCountAll ns.children).getD 0
    node.resolveInner schema n :: resolveSpaces schema (n - inner) rest

end

end Node

namespace Schema

/-- The schema with all fields resolved. -/
def resolveAll (schema : Schema) : Schema :=
  ⟨schema.namespaces.map fun ns => { ns with children := Node.resolveAll schema ns.children }⟩

/-- The schema with the first `n` fields resolved. -/
def resolveFirst (schema : Schema) (n : Nat) : Schema :=
  let nodes := Node.resolveSpaces schema n (schema.namespaces.map Namespace.toNode)
  ⟨nodes.filterMap Node.space?⟩

/-- All fields with the full name of the namespace and of the type that hold them, in order. -/
def fields (schema : Schema) : List (TypeDecl × Field) :=
  schema.types.flatMap fun t => t.fields.map fun f => (t, f)

/-- The first field that refers to nothing, behind the number of fields before it. -/
def firstUnresolvable? (schema : Schema) : Option (Nat × LoadError) :=
  let fields := schema.fields
  (fields.find? fun (t, f) => schema.isUnresolvable t.owner f).map fun (t, f) =>
    (fields.findIdx fun (t, f) => schema.isUnresolvable t.owner f,
      .unresolvable f.typeName t.fullName f.name)

/-- The schema with its references, and the first field that refers to nothing, if there is one. -/
def resolve (schema : Schema) : Schema × Option LoadError :=
  match schema.firstUnresolvable? with
  | none => (schema.resolveAll, none)
  | some (n, e) => (schema.resolveFirst n, some e)

end Schema

end SchemaClosure
