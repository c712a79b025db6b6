import SchemaClosure.Discovery.Files
import SchemaClosure.Document.Fault
import SchemaClosure.Schema.Format
import SchemaClosure.Schema.LoadError

/-!
# Why a configuration cannot be used

The causes, and the wording of those that are reported as errors of the configuration
(`SettingsError.message?`).
-/

namespace SchemaClosure

inductive SettingsError where
  | notFound (path : Path)
  /-- The file exists but cannot be read. -/
  | unreadable (e : ReadError)
  /-- A path cannot be looked for or spelled. -/
  | unreachable (e : FileError)
  | text (fault : Fault)
  | rootNotMapping
  | sectionMissing (name : String)
  | entriesNotText (field : String)
  | notTextOrList (field : String)
  | noSchemaPath
  | discovery (e : Discovery.Error)
  | noSchemaFile
  | filterMalformed
  | noTypes (label : String)
  | notText (field : String)
  | emptyText (field : String)
  | unknownFormat
  deriving DecidableEq, Repr

def SettingsError.message? : SettingsError → Option String
  | .notFound path => some s!"Configuration file not found: {path.text}"
  | .unreadable _ => none
  | .unreachable _ => none
  | .text .malformed => some s!"Failed to parse configuration file: {malformedText}"
  | .text _ => none
  | .rootNotMapping => some "Configuration root must be a mapping."
  | .sectionMissing name => some s!"Configuration section '{name}' is required."
  | .entriesNotText field => some s!"{field} entries must be strings."
  | .notTextOrList field => some s!"{field} must be a string or list of strings."
  | .noSchemaPath => some "schema.paths must contain at least one file or directory."
  | .discovery e => e.message?
  | .noSchemaFile => some "schema.paths did not match any schema files."
  | .filterMalformed => some "filter must be a mapping or a non-empty list of mappings."
  | .noTypes label => some s!"{label}.types must name at least one type."
  | .notText field => some s!"{field} must be a string."
  | .emptyText field => some s!"{field} must not be empty."
  | .unknownFormat =>
    let names := Text.join ", " (Format.all.map Format.name)
    some s!"output.format must be one of: {names}."

end SchemaClosure
