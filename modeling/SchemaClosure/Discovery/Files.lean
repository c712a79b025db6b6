import SchemaClosure.Discovery.NaturalOrder
import SchemaClosure.Files.FileSystem

/-!
# Discovering schema files

The schema files that stand directly in a directory are those with a known suffix, in the natural
order of their names. A list of files and directories is expanded in place: a file stands for itself
and a directory for its schema files.
-/

namespace SchemaClosure

inductive Discovery.Error where
  | directoryNotFound (path : Path)
  | pathNotFound (path : Path)
  /-- The path cannot be looked for. -/
  | unreachable (e : FileError)
  deriving DecidableEq, Repr

/-- The message of an error, unless it is one of the file system. -/
def Discovery.Error.message? : Discovery.Error → Option String
  | .directoryNotFound path => some s!"Schema directory not found: {path.text}"
  | .pathNotFound path => some s!"Schema path not found: {path.text}"
  | .unreachable _ => none

namespace Discovery

def schemaSuffixes : List String := [".yaml", ".yml", ".json"]

/-- Whether the suffix of a name is one of some suffixes, regardless of case. -/
def hasSuffix (suffixes : List String) (p : Path) : Bool :=
  (suffixes.map Text.lower).contains (Text.lower p.suffix)

/-- The files directly in a directory that have one of some suffixes, in natural order. -/
def filesIn (fs : FileSystem) (suffixes : List String) (directory : Path) : List Path :=
  naturalSortBy Path.name <|
    ((fs.namesIn directory).map directory.child).filter fun p => fs.isFile p && hasSuffix suffixes p

def discover (fs : FileSystem) (suffixes : List String) (directory : Path) :
    Except Discovery.Error (List Path) :=
  match fs.look directory with
  | .error e => .error (.unreachable e)
  | .ok (some .directory) => .ok (filesIn fs suffixes directory)
  | .ok _ => .error (.directoryNotFound directory)

/-- The files that a path stands for. -/
def expandOne (fs : FileSystem) (suffixes : List String) (p : Path) :
    Except Discovery.Error (List Path) :=
  match fs.look p with
  | .error e => .error (.unreachable e)
  | .ok (some .directory) => .ok (filesIn fs suffixes p)
  | .ok (some (.file _)) => .ok [p]
  | .ok none => .error (.pathNotFound p)

def expand (fs : FileSystem) (suffixes : List String) :
    List Path → Except Discovery.Error (List Path)
  | [] => .ok []
  | p :: rest => do
    let files ← expandOne fs suffixes p
    let others ← expand fs suffixes rest
    return files ++ others

end Discovery

end SchemaClosure
