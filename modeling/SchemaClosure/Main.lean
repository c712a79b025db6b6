import SchemaClosure.CommandLine.Footprint

/-!
# The command line program

Reads the places that the arguments lead to, lets the program run on them, writes back what it
changed, and prints what it says.
-/

namespace SchemaClosure.Main

/-- What stands at a place of the disk, and the names in it if it is a directory. -/
def look (place : List String) : IO (Option (Entry × List String)) := do
  try
    let path ← IO.FS.realPath (Path.mk 1 place).text
    if ← path.isDir then
      let children ← path.readDir
      return some (.directory, children.toList.map (·.fileName))
    else
      let octets ← IO.FS.readBinFile path
      return some (.file (String.fromUTF8? octets), [])
  catch _ => return none

/-- The file system with what stands at a place and, if this is a directory, directly in it. -/
def read (fs : FileSystem) (place : List String) : IO FileSystem := do
  match ← look place with
  | none => return fs
  | some (entry, names) =>
    let mut fs := fs.put place entry
    for name in names do
      if let some (child, _) ← look (place ++ [name]) then
        fs := fs.put (place ++ [name]) child
    return fs

/-- The directory that stands for that of the installed program, whose files come with it. -/
def program : List String := ["usr", "lib", "schema_pruner"]

/-- The file system with what stands at the places that the arguments lead to. What is found there may
lead to further places. -/
def readAll (home : List String) (arguments : List String) : IO FileSystem := do
  let mut fs : FileSystem := { home, program, limit := none, entries := [] }
  for place in Path.places home ⟨0, []⟩ do
    fs ← read fs place
  for _ in [0, 1] do
    for place in CommandLine.footprint fs arguments do
      fs ← read fs place
  return fs

def write (place : List String) : Entry → IO Unit
  | .directory => IO.FS.createDirAll (Path.mk 1 place).text
  | .file (some text) => IO.FS.writeFile (Path.mk 1 place).text text
  | .file none => return ()

def run (arguments : List String) : IO UInt32 := do
  let home := (Path.of (← IO.currentDir).toString).names
  let before ← readAll home arguments
  let result := CommandLine.run before arguments
  for (place, entry) in result.files.changesFrom before do
    write place entry
  match result.outcome with
  | .exit code output errors =>
    IO.print output
    IO.eprint errors
    return code.toUInt32
  | .failure cause =>
    IO.eprintln cause.description
    return 1

end SchemaClosure.Main

def main (arguments : List String) : IO UInt32 :=
  SchemaClosure.Main.run arguments
