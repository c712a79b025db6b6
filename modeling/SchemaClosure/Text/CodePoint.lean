/-!
# Code points

A text is a sequence of code points, and escapes can bring surrogates into it, which are no
characters. A surrogate is held by the private character `0x100000` above it; so a text that holds these
private characters themselves, from `0x10D800` to `0x10DFFF`, has no form of its own here. `Text.ofCode`
and `Text.code` lead from a code point to what holds it and back; all that counts, orders or escapes code
points goes by `Text.code`.

A surrogate has no octets, so a text with one can be neither written nor printed. In the names of files
alone, the surrogates from `0xDC80` to `0xDCFF` stand for octets that spell no text.
-/

namespace SchemaClosure.Text

/-- A surrogate: half of a character beyond the basic plane. -/
def isSurrogateCode (n : Nat) : Bool := 0xD800 ≤ n && n < 0xE000

/-- The distance from a surrogate to the character that holds it. -/
def surrogateOffset : Nat := 0x100000

def ofCode (n : Nat) : Char :=
  Char.ofNat (if isSurrogateCode n then n + surrogateOffset else n)

/-- The code point that a character holds. -/
def code (c : Char) : Nat :=
  if isSurrogateCode (c.toNat - surrogateOffset) && surrogateOffset ≤ c.toNat then
    c.toNat - surrogateOffset
  else c.toNat

def isSurrogate (c : Char) : Bool := isSurrogateCode (code c)

/-- Whether a text has octets. -/
def isEncodable (s : String) : Bool := s.toList.all fun c => !isSurrogate c

/-- Whether a character stands for an octet in the name of a file. -/
def isLoneOctet (c : Char) : Bool := 0xDC80 ≤ code c && code c ≤ 0xDCFF

/-- The number of octets of the name of a file. -/
def octets (name : String) : Nat :=
  name.toList.foldl (fun n c => n + if isLoneOctet c then 1 else c.utf8Size) 0

def codes (s : String) : List Nat := s.toList.map code

/-- Whether a text stands before another one in the order of their code points, or is equal to it. -/
def le (s t : String) : Bool := !List.lex (codes t) (codes s) Nat.blt

def sorted (texts : List String) : List String := texts.mergeSort le

end SchemaClosure.Text
