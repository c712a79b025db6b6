import SchemaClosure.Reach.Walk
import SchemaClosure.Schema.Files
import SchemaClosure.Settings.Configuration

/-!
# What a run starts from, and how it fails

A run starts from its configuration and the schema of all schema files that the configuration names
(`Project.load`). A `RunError` is the cause of a failure at any stage of it; `RunError.message?` words those that
a run reports in its own name.
-/

namespace SchemaClosure

inductive RunError where
  | configuration (e : SettingsError)
  | schema (e : LoadError)
  | missingType (m : MissingType)
  | unsupportedFormat (name : String)
  /-- The document holds something without a text. -/
  | document (reason : Unwritable)
  | unwritable (path : Path) (e : FileError)
  deriving DecidableEq, Repr

def RunError.message? : RunError → Option String
  | .configuration (.unreadable (.file e)) => e.message?
  | .configuration (.unreachable e) => e.message?
  | .configuration e => e.message?
  | .schema (.unreachable e) => e.message?
  | .schema e => e.message?
  | .missingType m => some m.message
  | .unsupportedFormat name => some s!"Unsupported output format: {name}"
  | .document _ => none
  | .unwritable path e => e.message?.map fun text => s!"Failed to write {path.text}: {text}"

/-- A configuration with the schema of its schema files. -/
structure Project where
  configuration : Configuration
  schema : Schema

/-- Loads a configuration and its schema files. -/
def Project.load (fs : FileSystem) (path : Path) : Except RunError Project :=
  match Configuration.load fs path with
  | .error e => .error (.configuration e)
  | .ok configuration =>
    match Schema.load fs configuration.files with
    | .error e => .error (.schema e)
    | .ok schema => .ok ⟨configuration, schema⟩

end SchemaClosure
