import SchemaClosure.Reach.Request
import SchemaClosure.Settings.Error
import SchemaClosure.Yaml.Value

/-!
# Configurations

A configuration file is YAML text with three sections: `schema` lists files and directories of schema
documents, `filter` holds one request or several, and the optional `output` names a file and a format.
Relative paths are taken from the directory of the file. A text may stand for a list of one, and blank
texts count as absent.
-/

namespace SchemaClosure

/-- What a configuration file asks for. -/
structure Configuration where
  /-- The configuration file itself, as it was named. -/
  path : Path
  /-- The files and directories of schema documents, and the files that they stand for. -/
  paths : List Path
  files : List Path
  requests : List Request
  outputPath : Option Path
  outputFormat : Format
  deriving DecidableEq, Repr

namespace Value

/-- The entries of a section, which must be a mapping. -/
def section? (name : String) (v : Value) : Except SettingsError Mapping :=
  match v.unrolled with
  | .mapping _ entries => .ok entries
  | _ => .error (.sectionMissing name)

/-- The texts among some items that are not blank, without white space at their ends. All items must
be texts. -/
def textItems (field : String) : List Value → Except SettingsError (List String)
  | [] => .ok []
  | .text s :: rest => do
    let others ← textItems field rest
    let stripped := Text.strip s
    return if stripped.isEmpty then others else stripped :: others
  | _ :: _ => .error (.entriesNotText field)

/-- The texts of a list, or of a text that stands for a list of one. Octets count as a list of
integers. -/
def texts (field : String) (v : Value) : Except SettingsError (List String) :=
  match v.unrolled with
  | .null => .ok []
  | .text s => textItems field [.text s]
  | .list _ items => textItems field items
  | .scalar (.bytes octets) => if octets.isEmpty then .ok [] else .error (.entriesNotText field)
  | _ => .error (.notTextOrList field)

def requiredText (field : String) : Value → Except SettingsError String
  | .text s =>
    let stripped := Text.strip s
    if stripped.isEmpty then .error (.emptyText field) else .ok stripped
  | _ => .error (.notText field)

def optionalText (field : String) : Value → Except SettingsError (Option String)
  | .null => .ok none
  | .text s =>
    let stripped := Text.strip s
    .ok (if stripped.isEmpty then none else some stripped)
  | _ => .error (.notText field)

end Value

namespace Configuration

/-- A path of the file, taken from a directory. Only what is resolved must be spelled correctly. -/
def located (base : Path) (s : String) : Except SettingsError Path :=
  let p := Path.of s
  if p.isAbsolute then .ok p
  else
    match p.spellingFault? with
    | some fault => .error (.unreachable ⟨fault, base.join p⟩)
    | none => .ok ((base.join p).resolve [])

def schemaPaths (base : Path) (v : Value) : Except SettingsError (List Path) := do
  let content ← v.section? "schema"
  let texts ← (content.field "paths").texts "schema.paths"
  if texts.isEmpty then throw .noSchemaPath
  texts.mapM (located base)

/-- The paths of the schema section, and the files that they stand for. -/
def schemaSection (fs : FileSystem) (base : Path) (v : Value) :
    Except SettingsError (List Path × List Path) := do
  let paths ← schemaPaths base v
  match Discovery.expand fs Discovery.schemaSuffixes paths with
  | .error (.unreachable e) => throw (.unreachable e)
  | .error e => throw (.discovery e)
  | .ok files => if files.isEmpty then throw .noSchemaFile else return (paths, files)

def request (label : String) (v : Value) : Except SettingsError Request := do
  let content ← v.section? label
  let owner ← (content.field "namespace").requiredText s!"{label}.namespace"
  let names ← (content.field "types").texts s!"{label}.types"
  if names.isEmpty then throw (.noTypes label)
  return .of owner names

/-- Requests from the one with number `index` on. -/
def requestsFrom (index : Nat) : List Value → Except SettingsError (List Request)
  | [] => .ok []
  | v :: rest => do
    let first ← request s!"filter[{index}]" v
    let others ← requestsFrom (index + 1) rest
    return first :: others

/-- The items of the filter section. -/
def filterItems (v : Value) : List Value :=
  match v.unrolled with
  | .list _ items => items
  | .scalar (.bytes octets) => octets.map fun o => .int o.toNat
  | .mapping mark entries => [.mapping mark entries]
  | _ => []

def filterSection (v : Value) : Except SettingsError (List Request) :=
  match v with
  | .null => .error (.sectionMissing "filter")
  | v => if (filterItems v).isEmpty then .error .filterMalformed else requestsFrom 0 (filterItems v)

/-- The format that a path suggests. -/
def suggestedFormat (path : Option Path) : Format :=
  if path.any fun p => Text.lower p.suffix == ".json" then .json else .yaml

/-- The entries of the output section, which may be absent. -/
def outputEntries : Value → Except SettingsError Mapping
  | .null => .ok []
  | v => v.section? "output"

/-- The file and the format of the output section. -/
def outputSection (base : Path) (v : Value) :
    Except SettingsError (Option Path × Format) := do
  let content ← outputEntries v
  let path ← (← (content.field "path").optionalText "output.path").mapM (located base)
  match ← (content.field "format").optionalText "output.format" with
  | none => return (path, suggestedFormat path)
  | some name =>
    match Format.ofName? (Text.lower name) with
    | some format => return (path, format)
    | none => throw .unknownFormat

/-- The sections of a configuration; a text that denotes nothing has none. -/
def rootEntries (v : Value) : Except SettingsError Mapping :=
  match v.unrolled with
  | .null => .ok []
  | .mapping _ entries => .ok entries
  | _ => .error .rootNotMapping

/-- The configuration that a value spells. -/
def ofValue (fs : FileSystem) (path : Path) (v : Value) :
    Except SettingsError Configuration := do
  let content ← rootEntries v
  let base := (fs.resolve path).parent
  let (paths, files) ← schemaSection fs base (content.field "schema")
  let requests ← filterSection (content.field "filter")
  let (outputPath, outputFormat) ← outputSection base (content.field "output")
  return ⟨path, paths, files, requests, outputPath, outputFormat⟩

def load (fs : FileSystem) (path : Path) : Except SettingsError Configuration :=
  match fs.look path with
  | .error e => .error (.unreachable e)
  | .ok none => .error (.notFound path)
  | .ok (some _) =>
    match fs.read path with
    | .error e => .error (.unreadable e)
    | .ok text =>
      match Yaml.parse 0 text with
      | .error fault => .error (.text fault)
      | .ok v => ofValue fs path v

end Configuration

end SchemaClosure
