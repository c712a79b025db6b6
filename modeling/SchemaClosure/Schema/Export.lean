import SchemaClosure.Schema.Basic

/-!
# The document of a schema

A document of the shape that the loader reads. In each namespace the types stand before the nested
namespaces and the options come last; what is empty is left out, but a message always has its
fields and an enum its values.
-/

namespace SchemaClosure

namespace Value

/-- A mapping that is written here. -/
def record (entries : List (String × Value)) : Value :=
  .mapping none (entries.map fun (k, v) => (.text k, v))

/-- Options under their name, if there are any. -/
def optionsEntry (options : Mapping) : List (String × Value) :=
  if options.isEmpty then [] else [("options", .mapping none options)]

end Value

def Field.toValue (f : Field) : Value :=
  .record <| [("name", .text f.name), ("type", .text f.typeName)]
    ++ f.id.toList.map (fun n => ("id", .int n))
    ++ f.rule.toList.map (fun s => ("rule", .text s))
    ++ Value.optionsEntry f.options

def TypeDecl.toValue (t : TypeDecl) : Value :=
  .record <|
    (match t.kind with
      | .enum => [("values", .record (t.values.map fun (name, n) => (name, .int n)))]
      | .message => [("fields", .list none (t.fields.map Field.toValue))])
    ++ Value.optionsEntry t.options

namespace Node

/-- The documents of the types among some nodes, under their names. -/
def typeEntries (nodes : List Node) : List (String × Value) :=
  (nodes.filterMap Node.type?).map fun t => (t.name, t.toValue)

/-- The document of a namespace from the documents of the namespaces that it holds. -/
def spaceValue (children : List Node) (nested : List (String × Value)) (options : Mapping) : Value :=
  let types := typeEntries children
  .record <|
    (if types.isEmpty then [] else [("types", .record types)])
    ++ (if nested.isEmpty then [] else [("namespaces", .record nested)])
    ++ Value.optionsEntry options

mutual

/-- The document of a namespace under its name. -/
def spaceEntry? : Node → Option (String × Value)
  | .type _ => none
  | .space name _ options children =>
    some (name, spaceValue children (spaceEntries children) options)

/-- The documents of the namespaces among some nodes, under their names. -/
def spaceEntries : List Node → List (String × Value)
  | [] => []
  | node :: rest => node.spaceEntry?.toList ++ spaceEntries rest

end

end Node

def Schema.toValue (schema : Schema) : Value :=
  .record [("namespaces", .record (Node.spaceEntries (schema.namespaces.map Namespace.toNode)))]

end SchemaClosure
