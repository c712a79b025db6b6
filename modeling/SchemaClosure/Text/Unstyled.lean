/-!
# Text without terminal styles

A terminal style is an escape character, an opening bracket, any number of digits, semicolons and
question marks, and a letter. `Text.unstyled` drops all styles of a text.
-/

namespace SchemaClosure

namespace Chars

def escape : Char := '\x1b'

/-- A character between the bracket and the letter of a style. -/
def isStyleArgument (c : Char) : Bool := c = ';' || c = '?' || c.isDigit

/-- The number of characters of the style at the start of a text, zero if there is none. -/
def styleLength (s : List Char) : Nat :=
  match s with
  | e :: '[' :: rest =>
    let arguments := rest.takeWhile isStyleArgument
    if e = escape && (rest.drop arguments.length).head?.any Char.isAlpha then arguments.length + 3
    else 0
  | _ => 0

/-- The text without styles; `skip` counts the characters of a style that are still to be dropped. -/
def unstyledFrom : Nat → List Char → List Char
  | _, [] => []
  | skip + 1, _ :: rest => unstyledFrom skip rest
  | 0, c :: rest =>
    match styleLength (c :: rest) with
    | 0 => c :: unstyledFrom 0 rest
    | n + 1 => unstyledFrom n rest

def unstyled (s : List Char) : List Char := unstyledFrom 0 s

end Chars

namespace Text

def unstyled (s : String) : String := String.ofList (Chars.unstyled s.toList)

end Text

end SchemaClosure
