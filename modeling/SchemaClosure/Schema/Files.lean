import SchemaClosure.Files.FileSystem
import SchemaClosure.Schema.Loading
import SchemaClosure.Yaml.Value

/-!
# Schema documents in files

A schema document is YAML text whose root is a mapping; a text that denotes nothing counts as the
empty mapping. Files are read and parsed in the given order before any of them is merged.
-/

namespace SchemaClosure

namespace SchemaDocument

/-- The document that a value is. -/
def ofValue (source : String) (v : Value) : Except LoadError SchemaDocument :=
  match v.unrolled with
  | .null => .ok ⟨source, []⟩
  | .mapping _ content => .ok ⟨source, content⟩
  | _ => .error (.rootNotMapping source)

/-- The document that a text spells. `number` tells it from the other documents of a schema. -/
def parse (number : Nat) (source text : String) : Except LoadError SchemaDocument :=
  match Yaml.parse number text with
  | .error fault => .error (.text source fault)
  | .ok v => ofValue source v

def load (fs : FileSystem) (number : Nat) (p : Path) : Except LoadError SchemaDocument :=
  match fs.look p with
  | .error e => .error (.unreachable e)
  | .ok (some (.file _)) =>
    match fs.read p with
    | .ok text => parse number p.text text
    | .error _ => .error (.undecodable p.text)
  | .ok _ => .error (.fileNotFound p.text)

def loadAll (fs : FileSystem) : Nat → List Path → Except LoadError (List SchemaDocument)
  | _, [] => .ok []
  | number, p :: rest => do
    let document ← load fs number p
    let others ← loadAll fs (number + 1) rest
    return document :: others

end SchemaDocument

def Schema.load (fs : FileSystem) (paths : List Path) : Except LoadError Schema := do
  let documents ← SchemaDocument.loadAll fs 0 paths
  Schema.ofDocuments documents

end SchemaClosure
