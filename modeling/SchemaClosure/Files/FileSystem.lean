import SchemaClosure.Files.Path
import SchemaClosure.Text.CodePoint
import SchemaClosure.Text.Quoted

/-!
# A file system

Directories and text files by their places, which are the lists of names from the root, on a `Host`: the
working directory that relative paths start from, the directory of the program, and how much of a text the
device takes. A path is followed name by name: what it passes through must be an existing directory, also
where it goes upwards.

Reading takes every line end for a line feed. What can go wrong is a `FileFault`; together with the path
that was asked for it is a `FileError`. Asking what is at a path (`FileSystem.look`) goes wrong for a name or
path that is too long only; a path that cannot be spelled denotes nothing. Writing opens the file first, which
makes or empties it, so it holds a beginning of the text when the text then cannot be written
(`FileSystem.write`).

There are no links, no permissions and no other programs. The device has room for every name and directory,
and refuses the octets of texts only. Two names of the same octets that are spelled by different code points
(`Text.isLoneOctet`) are two names here.
-/

namespace SchemaClosure

/-- What stands at a place. A file has no text if its octets do not spell any. -/
inductive Entry where
  | directory
  | file (text : Option String)
  deriving DecidableEq, Repr

/-- Why a device takes no more octets. -/
inductive Refusal where
  | full
  | overQuota
  | broken
  deriving DecidableEq, Repr

/-- How many octets of a text a device takes, and why it takes no more. -/
structure Limit where
  octets : Nat
  reason : Refusal
  deriving DecidableEq, Repr

/-- What is around the files: the places of the working directory and of the installed program, and what the
device takes of each text, which may be all of it. -/
structure Host where
  home : List String
  program : List String
  limit : Option Limit
  deriving DecidableEq, Repr

/-- The files and directories of a host. -/
structure FileSystem extends Host where
  entries : List (List String × Entry)
  deriving Repr

/-- What can go wrong with a path, or with writing to it. -/
inductive FileFault where
  | missing
  | occupied
  | notDirectory
  | isDirectory
  | nameTooLong
  /-- A name holds the null character, which ends every path. -/
  | nullCharacter
  /-- A name holds a surrogate that stands for no octet. -/
  | surrogate
  /-- The text holds a surrogate. -/
  | unencodable
  /-- The device does not take all of the text. -/
  | refused (reason : Refusal)
  deriving DecidableEq, Repr

structure FileError where
  fault : FileFault
  path : Path
  deriving DecidableEq, Repr

namespace FileError

/-- The number and the wording of a fault, unless it is in the spelling of the path or of the text. -/
def wording? : FileFault → Option (Nat × String)
  | .missing => some (2, "No such file or directory")
  | .refused .broken => some (5, "Input/output error")
  | .occupied => some (17, "File exists")
  | .notDirectory => some (20, "Not a directory")
  | .isDirectory => some (21, "Is a directory")
  | .refused .full => some (28, "No space left on device")
  | .nameTooLong => some (36, "File name too long")
  | .refused .overQuota => some (122, "Disk quota exceeded")
  | .nullCharacter => none
  | .surrogate => none
  | .unencodable => none

/-- The message of an error, unless it is about a spelling. What the device refuses has no path. -/
def message? (e : FileError) : Option String :=
  (wording? e.fault).map fun (number, words) =>
    match e.fault with
    | .refused _ => s!"[Errno {number}] {words}"
    | _ => s!"[Errno {number}] {words}: {Text.quoted e.path.text}"

end FileError

/-- Why a file cannot be read as text. -/
inductive ReadError where
  | file (e : FileError)
  | undecodable (path : Path)
  deriving DecidableEq, Repr

namespace Path

/-- The greatest number of octets of a name. -/
def longestName : Nat := 255

/-- The greatest number of octets of a path. -/
def longestText : Nat := 4095

/-- What is wrong with the spelling of a path. -/
def spellingFault? (p : Path) : Option FileFault :=
  if p.text.toList.any fun c => Text.isSurrogate c && !Text.isLoneOctet c then some .surrogate
  else if p.text.toList.contains '\x00' then some .nullCharacter
  else none

end Path

namespace FileSystem

/-- What stands at a place. The root is always a directory. -/
def entryAt? (fs : FileSystem) (place : List String) : Option Entry :=
  if place.isEmpty then some .directory else fs.entries.lookup place

/-- The place that is reached along some names. -/
def follow (fs : FileSystem) : List String → List String → Except FileFault (List String)
  | place, [] => .ok place
  | place, name :: rest =>
    match fs.entryAt? place with
    | none => .error .missing
    | some (.file _) => .error .notDirectory
    | some .directory =>
      if Path.longestName < Text.octets name then .error .nameTooLong
      else fs.follow (if name = Path.upward then place.dropLast else place ++ [name]) rest

/-- The place that a path denotes, whether or not something is there. -/
def locate (fs : FileSystem) (p : Path) : Except FileFault (List String) :=
  match p.spellingFault? with
  | some fault => .error fault
  | none =>
    if Path.longestText < Text.octets p.text then .error .nameTooLong
    else fs.follow (if p.isAbsolute then [] else fs.home) p.names

def entry? (fs : FileSystem) (p : Path) : Option Entry :=
  match fs.locate p with
  | .ok place => fs.entryAt? place
  | .error _ => none

/-- What a path denotes, if that can be asked: no name of it is too long. -/
def look (fs : FileSystem) (p : Path) : Except FileError (Option Entry) :=
  match fs.locate p with
  | .ok place => .ok (fs.entryAt? place)
  | .error .nameTooLong => .error ⟨.nameTooLong, p⟩
  | .error _ => .ok none

def isDirectory (fs : FileSystem) (p : Path) : Bool :=
  fs.entry? p = some .directory

def isFile (fs : FileSystem) (p : Path) : Bool :=
  match fs.entry? p with
  | some (.file _) => true
  | _ => false

/-- The absolute path that a path spells. -/
def resolve (fs : FileSystem) (p : Path) : Path := p.resolve fs.home

/-- The names in the directory at a place. -/
def namesAt (fs : FileSystem) (place : List String) : List String :=
  fs.entries.filterMap fun (q, _) =>
    if q ≠ [] && q.dropLast = place then q.getLast? else none

def namesIn (fs : FileSystem) (p : Path) : List String :=
  match fs.locate p with
  | .ok place => fs.namesAt place
  | .error _ => []

/-- Line feeds in place of all line ends. -/
def lineFeeds : List Char → List Char
  | '\r' :: '\n' :: rest => '\n' :: lineFeeds rest
  | '\r' :: rest => '\n' :: lineFeeds rest
  | c :: rest => c :: lineFeeds rest
  | [] => []

/-- The text of the file that a path denotes. -/
def read (fs : FileSystem) (p : Path) : Except ReadError String :=
  match fs.locate p with
  | .error fault => .error (.file ⟨fault, p⟩)
  | .ok place =>
    match fs.entryAt? place with
    | none => .error (.file ⟨.missing, p⟩)
    | some .directory => .error (.file ⟨.isDirectory, p⟩)
    | some (.file none) => .error (.undecodable p)
    | some (.file (some s)) => .ok (String.ofList (lineFeeds s.toList))

def putEntry (place : List String) (e : Entry) :
    List (List String × Entry) → List (List String × Entry)
  | [] => [(place, e)]
  | (q, f) :: rest => if q = place then (q, e) :: rest else (q, f) :: putEntry place e rest

/-- The file system with an entry put at a place. -/
def put (fs : FileSystem) (place : List String) (e : Entry) : FileSystem :=
  { fs with entries := putEntry place e fs.entries }

def makeDirectory (fs : FileSystem) (p : Path) : Except FileError FileSystem :=
  match fs.locate p with
  | .error fault => .error ⟨fault, p⟩
  | .ok place =>
    match fs.entryAt? place with
    | some _ => .error ⟨.occupied, p⟩
    | none =>
      match fs.entryAt? place.dropLast with
      | none => .error ⟨.missing, p⟩
      | some (.file _) => .error ⟨.notDirectory, p⟩
      | some .directory => .ok (fs.put place .directory)

/-- Makes the directory at the end of a path unless there is one; what is missing on the way to it is
made for at most `depth` names. The changes before a failure remain. -/
def makeDirectoriesFrom (fs : FileSystem) (p : Path) : Nat → FileSystem × Option FileError
  | 0 =>
    match fs.makeDirectory p with
    | .ok fs => (fs, none)
    | .error e => if fs.isDirectory p then (fs, none) else (fs, some e)
  | depth + 1 =>
    match fs.makeDirectory p with
    | .ok fs => (fs, none)
    | .error e =>
      if e.fault = .missing && p.parent ≠ p then
        match fs.makeDirectoriesFrom p.parent depth with
        | (fs, some e) => (fs, some e)
        | (fs, none) =>
          match fs.makeDirectory p with
          | .ok fs => (fs, none)
          | .error e => if fs.isDirectory p then (fs, none) else (fs, some e)
      else if fs.isDirectory p then (fs, none)
      else (fs, some e)

/-- Makes the directory at the end of a path, and those that are missing on the way to it. -/
def makeDirectories (fs : FileSystem) (p : Path) : FileSystem × Option FileError :=
  fs.makeDirectoriesFrom p p.names.length

/-- The place of the file that a path opens for writing. -/
def opened (fs : FileSystem) (p : Path) : Except FileError (List String) :=
  match fs.locate p with
  | .error fault => .error ⟨fault, p⟩
  | .ok place =>
    match fs.entryAt? place with
    | some .directory => .error ⟨.isDirectory, p⟩
    | some (.file _) => .ok place
    | none =>
      match fs.entryAt? place.dropLast with
      | none => .error ⟨.missing, p⟩
      | some (.file _) => .error ⟨.notDirectory, p⟩
      | some .directory => .ok place

/-- The first octets of a text, unless they end inside of a character. -/
def beginning? : Nat → List Char → Option (List Char)
  | _, [] => some []
  | 0, _ :: _ => some []
  | room, c :: rest =>
    if room < c.utf8Size then none else (beginning? (room - c.utf8Size) rest).map (c :: ·)

/-- What an open file holds after a text has been written to it, and what goes wrong. Nothing of a text
without octets is written. -/
def written (fs : FileSystem) (s : String) : Option String × Option FileFault :=
  if !Text.isEncodable s then (some "", some .unencodable)
  else
    match fs.limit with
    | none => (some s, none)
    | some limit =>
      if s.utf8ByteSize ≤ limit.octets then (some s, none)
      else ((beginning? limit.octets s.toList).map String.ofList, some (.refused limit.reason))

/-- Writes a text to the file at the end of a path. An error after the file was opened leaves it changed. -/
def write (fs : FileSystem) (p : Path) (s : String) : FileSystem × Option FileError :=
  match fs.opened p with
  | .error e => (fs, some e)
  | .ok place =>
    let (content, fault) := fs.written s
    (fs.put place (.file content), fault.map fun fault => ⟨fault, p⟩)

/-- Makes the directories on the way to a path and writes a text to the file at its end. -/
def writeBelow (fs : FileSystem) (p : Path) (s : String) : FileSystem × Option FileError :=
  match fs.makeDirectories p.parent with
  | (fs, some e) => (fs, some e)
  | (fs, none) => fs.write p s

/-- The entries that are not as they were in another file system. -/
def changesFrom (fs before : FileSystem) : List (List String × Entry) :=
  fs.entries.filter fun (place, e) => before.entries.lookup place ≠ some e

end FileSystem

end SchemaClosure
