import SchemaClosure.Files.FileSystem

/-!
# Wrapper templates

The templates that are built in, and finding the template of a name. A name is looked up first as a
template in the directory of the built-in ones, with the ending `.js`; such a name may lead out of that
directory. Any other name is the path of a file.

The files of the installed program stand in its directory (`Host.program`). The first look-up sees them whatever
the file system holds (`withInstalled`); the second one sees the file system alone, which is to hold them, too, if
a name is to lead to one of them by its path.
-/

namespace SchemaClosure

namespace Wrapper

/-- The template for both kinds of module loaders. -/
def defaultTemplate : String :=
  "(function(global, factory) \x7b /* global define, require, module */

    /* AMD */ if (typeof define === \"function\" && define.amd)
        define([$DEPENDENCY], factory);

    /* CommonJS */ else if (typeof require === \"function\" && typeof module === \"object\" && module && module.exports)
        module.exports = factory(require($DEPENDENCY));

\x7d)(this, function($protobuf) \x7b
    \"use strict\";

    $OUTPUT;

    return $root;
\x7d);
"

def commonTemplate : String :=
  "\"use strict\";

var $protobuf = require($DEPENDENCY);

$OUTPUT;

module.exports = $root;
"

def moduleTemplate : String :=
  "import * as $protobuf from $DEPENDENCY;

$OUTPUT;

export \x7b $root as default \x7d;
"

/-- The built-in templates by their names, in order. -/
def builtin : List (String × String) :=
  [("commonjs", commonTemplate), ("default", defaultTemplate), ("es6", moduleTemplate)]

def builtinNames : List String := builtin.map (·.1)

/-- The template of a run that names none. -/
def defaultName : String := "default"

/-- The directories directly in that of the installed program. -/
def programParts : List String :=
  ["configuration", "file_discovery", "output_wrapping", "reachability", "run_execution", "schema_tree",
   "tree_inspection"]

def directory (host : Host) : List String := host.program ++ ["output_wrapping", "wrappers"]

/-- What stands at the places of the installed program: its directories and the built-in templates. -/
def installed (host : Host) : List (List String × Entry) :=
  (List.range (directory host).length).map (fun n => ((directory host).take (n + 1), Entry.directory))
    ++ programParts.map (fun part => (host.program ++ [part], Entry.directory))
    ++ builtin.map fun (name, text) => (directory host ++ [name ++ ".js"], .file (some text))

/-- The file system with the installed program in it. -/
def withInstalled (fs : FileSystem) : FileSystem :=
  { fs with entries := installed fs.toHost ++ fs.entries }

/-- Why a name gives no template. -/
inductive Error where
  | notFound (name : String) (place : Path)
  /-- The file cannot be looked for. -/
  | unreachable (e : FileError)
  /-- The file does not hold text. -/
  | undecodable (place : Path)
  deriving DecidableEq, Repr

/-- The message of an error, unless it is about the octets of a file or the way to it. -/
def Error.message? : Error → Option String
  | .notFound name place =>
    let names := Text.join ", " builtinNames
    some s!"Wrapper '{name}' is neither built in ({names}) nor a readable file: {place.text}"
  | .unreachable _ => none
  | .undecodable _ => none

def builtinPath (host : Host) (name : String) : Path :=
  (Path.mk 1 (directory host)).join (.of (name ++ ".js"))

def customPath (fs : FileSystem) (home : Option Path) (name : String) : Path :=
  (home.getD ⟨1, fs.home⟩).join (.of name)

/-- The place of the file that a name denotes from a directory. -/
def customPlace (fs : FileSystem) (home : Option Path) (name : String) : Path :=
  fs.resolve (customPath fs home name)

/-- Whether a name is found among the built-in templates. -/
def isBuiltin (fs : FileSystem) (name : String) : Bool :=
  (withInstalled fs).isFile (builtinPath fs.toHost name)

/-- The template in the file that a name denotes from a directory. -/
def loadCustom (fs : FileSystem) (home : Option Path) (name : String) : Except Error String :=
  let place := customPlace fs home name
  match (customPath fs home name).spellingFault? with
  | some fault => .error (.unreachable ⟨fault, customPath fs home name⟩)
  | none =>
    match fs.read place with
    | .ok text => .ok text
    | .error (.file _) => .error (.notFound name place)
    | .error (.undecodable place) => .error (.undecodable place)

/-- The template of a name. -/
def load (fs : FileSystem) (home : Option Path) (name : String) : Except Error String :=
  match (withInstalled fs).look (builtinPath fs.toHost name) with
  | .error e => .error (.unreachable e)
  | .ok (some (.file _)) =>
    match (withInstalled fs).read (builtinPath fs.toHost name) with
    | .ok text => .ok text
    | .error _ => .error (.undecodable (builtinPath fs.toHost name))
  | .ok _ => loadCustom fs home name

end Wrapper

end SchemaClosure
