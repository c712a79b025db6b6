import SchemaClosure.Files.FileSystem
import SchemaClosure.Json.Text
import SchemaClosure.Schema.Export
import SchemaClosure.Yaml.Text

/-!
# The text of a schema

A schema is written as the YAML or the JSON text of its document. Not every document has a text, so writing
may fail; a text in hand can be written to a file.
-/

namespace SchemaClosure

inductive Format where
  | yaml
  | json
  deriving DecidableEq, Repr

namespace Format

def name : Format → String
  | .yaml => "yaml"
  | .json => "json"

def all : List Format := [.yaml, .json]

def ofName? (s : String) : Option Format := all.find? (·.name == s)

end Format

inductive DumpError where
  | unsupported (format : String)
  /-- The document holds something without a text. -/
  | document (reason : Unwritable)
  deriving DecidableEq, Repr

/-- The message of an error, unless it is about a value of the document. -/
def DumpError.message? : DumpError → Option String
  | .unsupported format => some s!"Unsupported export format: {format}"
  | .document _ => none

inductive WriteError where
  | dump (e : DumpError)
  | file (e : FileError)
  deriving DecidableEq, Repr

namespace Schema

/-- The text of a schema in a format, if it has one. -/
def dumpAs? (schema : Schema) : Format → Except Unwritable String
  | .yaml => Yaml.render? schema.toValue
  | .json => (Json.render? schema.toValue).map (· ++ "\n")

def dump (schema : Schema) (format : String) : Except DumpError String :=
  match Format.ofName? format with
  | none => .error (.unsupported format)
  | some f => (schema.dumpAs? f).mapError .document

/-- Writes a schema to a file. The directories on the way to it are made first. -/
def write (schema : Schema) (fs : FileSystem) (p : Path) (format : String) :
    FileSystem × Except WriteError Path :=
  match fs.makeDirectories p.parent with
  | (fs, some e) => (fs, .error (.file e))
  | (fs, none) =>
    match schema.dump format with
    | .error e => (fs, .error (.dump e))
    | .ok text =>
      match fs.write p text with
      | (fs, none) => (fs, .ok (fs.resolve p))
      | (fs, some e) => (fs, .error (.file e))

end Schema

end SchemaClosure
