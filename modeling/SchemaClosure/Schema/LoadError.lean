import SchemaClosure.Document.Fault
import SchemaClosure.Files.FileSystem

/-!
# Why a schema cannot be loaded

The causes, and the wording of those that are reported as errors of the schema
(`LoadError.message?`). The remaining causes are faults of another kind, which callers do not turn
into a message of their own.
-/

namespace SchemaClosure

/-- Why schema documents give no schema. `source` names the document, `label` the place in it. -/
inductive LoadError where
  /-- The text denotes no value. -/
  | text (source : String) (fault : Fault)
  /-- The file does not hold text. -/
  | undecodable (path : String)
  /-- The file cannot be looked for. -/
  | unreachable (e : FileError)
  | fileNotFound (path : String)
  | rootNotMapping (source : String)
  | namespacesNotMapping (source : String)
  | notMapping (label source : String)
  | duplicateType (owner name source : String)
  | collidesWithType (fullName source : String)
  | fieldsAndValues (label source : String)
  | valueNotInteger (label value source : String)
  | fieldsNotList (label source : String)
  | duplicateField (label field source : String)
  | notText (label source : String)
  | emptyText (label source : String)
  | idNotInteger (label field source : String)
  | ruleUnknown (label field source : String)
  /-- The rule is a list or a mapping, which cannot be compared with the known rules. -/
  | ruleNotScalar (label field source : String)
  | unresolvable (typeName owner field : String)
  /-- A key that gives a name is an integer with too many digits. -/
  | labelTooLong (source : String)
  /-- A namespace holds itself. -/
  | endless (source : String)
  deriving DecidableEq, Repr

/-- What stands for the details of a text that is not well formed. -/
def malformedText : String := "<yaml error>"

namespace LoadError

def message? : LoadError → Option String
  | .text source .malformed => some s!"Failed to parse schema document {source}: {malformedText}"
  | .text _ _ => none
  | .undecodable _ => none
  | .unreachable _ => none
  | .fileNotFound path => some s!"Schema file not found: {path}"
  | .rootNotMapping source => some s!"Schema document root must be a mapping: {source}"
  | .namespacesNotMapping source => some s!"'namespaces' must be a mapping in {source}"
  | .notMapping label source => some s!"{label} must be a mapping ({source})"
  | .duplicateType owner name source => some s!"Duplicate definition {owner}.{name} in {source}"
  | .collidesWithType fullName source =>
    some s!"Namespace {fullName} collides with a type in {source}"
  | .fieldsAndValues label source =>
    some s!"{label} must declare either fields or values, not both ({source})"
  | .valueNotInteger label value source => some s!"{label}.{value} must be an integer ({source})"
  | .fieldsNotList label source => some s!"{label}.fields must be a list ({source})"
  | .duplicateField label field source => some s!"Duplicate field {label}.{field} ({source})"
  | .notText label source => some s!"{label} must be a string ({source})"
  | .emptyText label source => some s!"{label} must not be empty ({source})"
  | .idNotInteger label field source => some s!"{label}.{field}.id must be an integer ({source})"
  | .ruleUnknown label field source =>
    some s!"{label}.{field}.rule must be one of ['optional', 'repeated', 'required'] ({source})"
  | .ruleNotScalar _ _ _ => none
  | .unresolvable typeName owner field =>
    some s!"Unresolvable type '{typeName}' for field {owner}.{field}"
  | .labelTooLong _ => none
  | .endless _ => none

end LoadError

end SchemaClosure
