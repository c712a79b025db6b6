import SchemaClosure.Text.Pieces

/-!
# A sheet of indented text

Text that is written from left to right in lines. Besides the text the sheet knows the column, whether
white space stands before the place, and whether the line holds nothing yet but indentation and the
marks of entries, so that nested entries may share it.
-/

namespace SchemaClosure.Yaml

/-- A text that is being written. -/
structure Sheet where
  text : String
  column : Nat
  /-- Nothing or white space stands before the place. -/
  spaced : Bool
  /-- The line holds nothing but indentation and the marks of entries. -/
  fresh : Bool
  deriving Repr

namespace Sheet

/-- The greatest column at which words are put on the same line. -/
def width : Nat := 80

def blank : Sheet := ⟨"", 0, true, true⟩

def put (s : Sheet) (word : String) : Sheet :=
  { s with text := s.text ++ word, column := s.column + word.length }

/-- Writes a mark that ends what stands before it. -/
def mark (s : Sheet) (word : String) : Sheet :=
  { s.put word with spaced := false, fresh := false }

/-- Writes a mark with a space in front unless white space stands there. -/
def spacedMark (s : Sheet) (word : String) : Sheet :=
  s.mark (if s.spaced then word else " " ++ word)

/-- Writes the mark of an entry; the line stays as fresh as it was. -/
def entryMark (s : Sheet) (word : String) : Sheet :=
  { s.spacedMark word with fresh := s.fresh }

def breakLine (s : Sheet) : Sheet := ⟨s.text ++ "\n", 0, true, true⟩

/-- Goes to a column of the line if the line is fresh and not beyond it, else of the next line. -/
def indentTo (s : Sheet) (indent : Nat) : Sheet :=
  let s :=
    if !s.fresh || indent < s.column || (s.column == indent && !s.spaced) then s.breakLine else s
  if s.column < indent then { s.put (Text.repeated (indent - s.column) ' ') with spaced := true }
  else s

/-- Goes on with a word at a column of the next line. -/
def resume (s : Sheet) (indent : Nat) : Sheet :=
  { s.indentTo indent with spaced := false, fresh := false }

end Sheet

end SchemaClosure.Yaml
