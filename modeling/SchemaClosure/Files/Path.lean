import SchemaClosure.Text.Pieces

/-!
# Paths

A path is a list of names behind no, one or two slashes. Empty names and single dots are left out when
a text is read as a path; names that lead upwards (`..`) are kept until the path is resolved
(`Path.resolve`).
-/

namespace SchemaClosure

structure Path where
  /-- The number of slashes in front: none for a relative path, else one or two. -/
  slashes : Nat
  names : List String
  deriving DecidableEq, Repr

namespace Path

/-- The name that leads to the directory above. -/
def upward : String := ".."

/-- The path that a text spells. Exactly two slashes in front are kept, more count as one. -/
def of (s : String) : Path :=
  let n := (s.toList.takeWhile (· = '/')).length
  ⟨if n = 0 then 0 else if n = 2 then 2 else 1,
    (Text.pieces '/' s).filter fun name => name ≠ "" && name ≠ "."⟩

def isAbsolute (p : Path) : Bool := 0 < p.slashes

def text (p : Path) : String :=
  if p.slashes = 0 && p.names.isEmpty then "."
  else Text.repeated p.slashes '/' ++ Text.join "/" p.names

/-- The last name, empty if there is none. -/
def name (p : Path) : String := p.names.getLast?.getD ""

/-- The path without its last name. -/
def parent (p : Path) : Path := { p with names := p.names.dropLast }

/-- The path of `q` seen from `p`: an absolute path stands for itself. -/
def join (p q : Path) : Path :=
  if q.isAbsolute then q else { p with names := p.names ++ q.names }

/-- The path with a name behind it. -/
def child (p : Path) (name : String) : Path := { p with names := p.names ++ [name] }

/-- The end of the last name from its last dot on, if the dot is neither its first nor its last
character. -/
def suffix (p : Path) : String :=
  match Text.cutLast? '.' p.name with
  | some (stem, ending) => if stem.isEmpty || ending.isEmpty then "" else "." ++ ending
  | none => ""

/-- The names after going through `names` from a directory: each name leads downwards, except that
`..` leads upwards, at the root to the root itself. -/
def descend (directory names : List String) : List String :=
  names.foldl (fun here name => if name = upward then here.dropLast else here ++ [name]) directory

/-- The absolute path without `..` that a path spells from a directory. -/
def resolve (home : List String) (p : Path) : Path :=
  ⟨1, descend (if p.isAbsolute then [] else home) p.names⟩

end Path

end SchemaClosure
