import SchemaClosure.Files.FileSystem

/-!
# A configuration to start from

A configuration file with placeholders and guidance, which is written where nothing is yet.
-/

namespace SchemaClosure.Scaffold

def defaultName : String := "schema-pruner.yaml"

def text : String :=
  "# Filter configuration template for schema-pruner.
# Replace every <REQUIRED> placeholder before running filter or inspect.
# Uncomment <OPTIONAL> placeholders only when your setup needs them.

schema:
  # Schema files or directories, relative to this file.
  # Directories are read non-recursively in natural filename order.
  paths:
    - \"<REQUIRED>\"

filter:
  # One entry set per top-level namespace; closures of all entries are merged.
  # A namespace missing from the loaded schema is skipped, a missing type is an error.
  - namespace: \"<REQUIRED>\"
    types:
      - \"<REQUIRED>\"

# output:
#   # Pruned schema document; printed to stdout when no path is set.
#   path: \"<OPTIONAL>\"
#   # yaml or json (inferred from a .json path when omitted).
#   format: \"<OPTIONAL>\"
"

inductive Error where
  /-- Something is there already. -/
  | occupied (place : Path)
  | file (e : FileError)
  deriving DecidableEq, Repr

/-- The message of an error, unless it is about the spelling of the path. -/
def Error.message? : Error → Option String
  | .occupied place => some s!"Configuration file already exists: {place.text}"
  | .file e => e.message?

def write (fs : FileSystem) (p : Path) : FileSystem × Except Error Path :=
  match fs.look p with
  | .error e => (fs, .error (.file e))
  | .ok (some _) => (fs, .error (.occupied (fs.resolve p)))
  | .ok none =>
    match fs.write p text with
    | (fs, none) => (fs, .ok (fs.resolve p))
    | (fs, some e) => (fs, .error (.file e))

end SchemaClosure.Scaffold
