import SchemaClosure.Schema.Resolution

/-!
# Building a schema from documents

A document declares namespaces, each with options, types and further namespaces. Documents that
declare the same namespace are merged: its children are those of all of them, its options those of
all of them with the last value of each. A type may be declared only once. When all documents are
merged, the references are resolved.

A declaration may hold itself, but a namespace that does so endlessly is refused.

The names of namespaces, types and enum values are the labels of their keys. A top-level namespace
continues one of an earlier document only if its key is the text of that name.
-/

namespace SchemaClosure

/-- A parsed schema document and the name of where it comes from. -/
structure SchemaDocument where
  source : String
  content : Mapping

/-- The words that may stand as the rule of a field. -/
def ruleWords : List String := ["optional", "repeated", "required"]

namespace Value

def entries (label source : String) (v : Value) : Except LoadError Mapping :=
  match v.unrolled with
  | .mapping _ entries => .ok entries
  | _ => .error (.notMapping label source)

/-- The entries of a mapping; what stands for nothing has none. -/
def entriesOrNone (label source : String) (v : Value) : Except LoadError Mapping :=
  if v.isVoid then .ok [] else v.entries label source

/-- A text that is not blank, without the white space at its ends. -/
def nonEmptyText (label source : String) : Value → Except LoadError String
  | .text s =>
    let stripped := Text.strip s
    if stripped.isEmpty then .error (.emptyText label source) else .ok stripped
  | _ => .error (.notText label source)

/-- The items of a list. Octets count as a list of integers, and null as the empty list. -/
def fieldItems? (v : Value) : Option (List Value) :=
  match v.unrolled with
  | .null => some []
  | .list _ items => some items
  | .scalar (.bytes octets) => some (octets.map fun o => .int o.toNat)
  | _ => none

end Value

/-- The name that a key gives. -/
def Scalar.label (source : String) (key : Scalar) : Except LoadError String :=
  key.label?.elim (.error (.labelTooLong source)) .ok

namespace Field

def parseId (label name source : String) : Value → Except LoadError (Option Int)
  | .null => .ok none
  | .int n => .ok (some n)
  | _ => .error (.idNotInteger label name source)

def parseRule (label name source : String) (v : Value) : Except LoadError (Option String) :=
  match v.unrolled with
  | .null => .ok none
  | .text s => if ruleWords.contains s then .ok (some s) else .error (.ruleUnknown label name source)
  | .list _ _ => .error (.ruleNotScalar label name source)
  | .mapping _ _ => .error (.ruleNotScalar label name source)
  | _ => .error (.ruleUnknown label name source)

/-- A field as declared in the type that `label` names. -/
def parse (label source : String) (v : Value) : Except LoadError Field := do
  let content ← v.entries s!"{label} field" source
  let name ← (content.field "name").nonEmptyText s!"{label} field name" source
  let typeName ← (content.field "type").nonEmptyText s!"{label}.{name}.type" source
  let id ← parseId label name source (content.field "id")
  let rule ← parseRule label name source (content.field "rule")
  let options ← (content.field "options").entriesOrNone s!"{label}.{name}.options" source
  return ⟨name, typeName, id, rule, none, options⟩

/-- The first name that an earlier field has already. -/
def firstRepeated? (seen : List String) : List Field → Option String
  | [] => none
  | f :: rest => if seen.contains f.name then some f.name else firstRepeated? (f.name :: seen) rest

end Field

namespace TypeDecl

/-- The values with the number of a name replaced or put at the end. -/
def putValue (name : String) (number : Int) : List (String × Int) → List (String × Int)
  | [] => [(name, number)]
  | (n, m) :: rest => if n = name then (n, number) :: rest else (n, m) :: putValue name number rest

def parseValues (label source : String) (acc : List (String × Int)) :
    Mapping → Except LoadError (List (String × Int))
  | [] => .ok acc
  | (key, v) :: rest => do
    let name ← key.label source
    match v with
    | .int n => parseValues label source (putValue name n acc) rest
    | _ => throw (.valueNotInteger label name source)

/-- A type as declared under a name in a namespace. -/
def parse (name owner source : String) (v : Value) : Except LoadError TypeDecl := do
  let label := s!"{owner}.{name}"
  let content ← v.entriesOrNone label source
  let options ← (content.field "options").entriesOrNone s!"{label}.options" source
  if content.has "fields" && content.has "values" then throw (.fieldsAndValues label source)
  if content.has "values" then
    let entries ← (content.field "values").entries s!"{label}.values" source
    let values ← parseValues label source [] entries
    return ⟨name, owner, .enum, [], values, options⟩
  else
    match (content.field "fields").fieldItems? with
    | none => throw (.fieldsNotList label source)
    | some items =>
      let fields ← items.mapM (Field.parse label source)
      match Field.firstRepeated? [] fields with
      | some field => throw (.duplicateField label field source)
      | none => return ⟨name, owner, .message, fields, [], options⟩

end TypeDecl

namespace Namespace

def addTypes (source : String) (ns : Namespace) (owner : String) :
    Mapping → Except LoadError Namespace
  | [] => .ok ns
  | (key, definition) :: rest => do
    let name ← key.label source
    if (ns.child? name).isSome then throw (.duplicateType owner name source)
    let t ← TypeDecl.parse name owner source definition
    addTypes source (ns.add (.type t)) owner rest

/-- The namespace with the options and types of a declaration merged in. -/
def mergeOwn (source : String) (ns : Namespace) (fullName : String) (content : Mapping) :
    Except LoadError Namespace := do
  let options ← (content.field "options").entriesOrNone s!"{fullName}.options" source
  let types ← (content.field "types").entriesOrNone s!"{fullName}.types" source
  addTypes source { ns with options := ns.options.update options } fullName types

/-- How a declaration is merged into a namespace of a full name. -/
abbrev Merging := String → Namespace → Value → Except LoadError Namespace

/-- The namespace with the declaration under a key merged in by `merging`. -/
def mergeChild (source fullName : String) (ns : Namespace) (key : Scalar)
    (merging : String → Namespace → Except LoadError Namespace) : Except LoadError Namespace := do
  let name ← key.label source
  let childName := s!"{fullName}.{name}"
  match ns.child? name with
  | some (.type _) => throw (.collidesWithType childName source)
  | current =>
    let start := (current.bind Node.space?).getD (Namespace.empty name childName)
    return ns.add (← merging childName start).toNode

/-- The namespace with nested declarations merged in by `merging`. -/
def mergeEach (merging : Merging) (source fullName : String) (ns : Namespace) (entries : Mapping) :
    Except LoadError Namespace :=
  entries.foldlM (fun ns (key, v) =>
    mergeChild source fullName ns key fun childName start => merging childName start v) ns

mutual

/-- The namespace with a declaration merged in. What lies inside of a knot is merged by `beyond`. -/
def mergeWith (beyond : Merging) (source fullName : String) (ns : Namespace) :
    Value → Except LoadError Namespace
  | .mapping _ content => do
    let ns ← mergeOwn source ns fullName content
    mergeSection beyond source fullName ns content
  | .knot mark body => beyond fullName ns (.knot mark body)
  | v => if v.isVoid then .ok ns else .error (.notMapping s!"namespace {fullName}" source)

/-- The namespace with the nested namespaces of a declaration merged in, looked for among its
entries. -/
def mergeSection (beyond : Merging) (source fullName : String) (ns : Namespace) :
    List (Scalar × Value) → Except LoadError Namespace
  | [] => .ok ns
  | (key, v) :: rest =>
    if key.same (.text "namespaces") then
      match v with
      | .mapping _ nested => mergeChildren beyond source fullName ns nested
      | .knot mark body => do
        let nested ← (Value.knot mark body).entries s!"{fullName}.namespaces" source
        mergeEach beyond source fullName ns nested
      | v =>
        if v.isVoid then .ok ns else .error (.notMapping s!"{fullName}.namespaces" source)
    else mergeSection beyond source fullName ns rest

/-- The namespace with declarations of nested namespaces merged in. -/
def mergeChildren (beyond : Merging) (source fullName : String) (ns : Namespace) :
    List (Scalar × Value) → Except LoadError Namespace
  | [] => .ok ns
  | (key, v) :: rest => do
    let ns ← mergeChild source fullName ns key fun childName start =>
      mergeWith beyond source childName start v
    mergeChildren beyond source fullName ns rest

end

/-- How often a declaration may lead back into a knot before it counts as endless. -/
def deepest : Nat := 1000

/-- The namespace with a declaration merged in that may lead back into knots as often as this. -/
def mergeUpTo (source : String) : Nat → Merging
  | 0 => mergeWith (fun _ _ _ => .error (.endless source)) source
  | n + 1 => fun fullName ns v =>
    mergeWith (mergeUpTo source n) source fullName ns v.unrolled

/-- The namespace with a declaration merged in. -/
def merge (source : String) : Merging := mergeUpTo source deepest

end Namespace

namespace Schema

/-- The top-level namespace that a key continues. -/
def continued? (schema : Schema) : Scalar → Option Namespace
  | .text name => schema.top? name
  | _ => none

/-- The schema with top-level declarations of a document merged in. -/
def mergeNamespaces (source : String) (schema : Schema) : Mapping → Except LoadError Schema
  | [] => .ok schema
  | (key, v) :: rest => do
    let name ← key.label source
    let start := (schema.continued? key).getD (Namespace.empty name name)
    let ns ← Namespace.merge source name start v
    mergeNamespaces source ⟨Namespace.put ns schema.namespaces⟩ rest

/-- The schema with a document merged in. -/
def mergeDocument (schema : Schema) (document : SchemaDocument) : Except LoadError Schema := do
  let declared := document.content.field "namespaces"
  if declared.isVoid then return schema
  match declared.unrolled with
  | .mapping _ entries => mergeNamespaces document.source schema entries
  | _ => throw (.namespacesNotMapping document.source)

def mergeAll (schema : Schema) : List SchemaDocument → Except LoadError Schema
  | [] => .ok schema
  | document :: rest => do
    let schema ← schema.mergeDocument document
    schema.mergeAll rest

/-- The schema that documents declare, with its references. -/
def ofDocuments (documents : List SchemaDocument) : Except LoadError Schema := do
  let schema ← mergeAll ⟨[]⟩ documents
  match schema.resolve with
  | (schema, none) => return schema
  | (_, some e) => throw e

end Schema

end SchemaClosure
