import SchemaClosure.Text.Class
import SchemaClosure.Text.CodePoint
import SchemaClosure.Text.Pieces

/-!
# Quoted text

How a text, or octets, appear between quotes in messages and names: in the quotes that need fewer
escapes, with an escape for everything that does not show as it is. A message escapes nothing but surrogates
outside of quotes (`Text.escapeSurrogates`).
-/

namespace SchemaClosure.Text

/-- The quote that needs fewer escapes: single unless the text holds only single ones. -/
def quoteFor (hasSingle hasDouble : Bool) : Char :=
  if hasSingle && !hasDouble then '"' else '\''

/-- How one character shows between quotes; `plain` tells what shows as it is. -/
def quotedChar (quote : Char) (plain : Bool) (c : Char) : List Char :=
  if c = quote || c = '\\' then ['\\', c]
  else if c = '\t' then ['\\', 't']
  else if c = '\n' then ['\\', 'n']
  else if c = '\r' then ['\\', 'r']
  else if plain then [c]
  else if code c < 0x100 then '\\' :: 'x' :: digits 16 2 (code c)
  else if code c < 0x10000 then '\\' :: 'u' :: digits 16 4 (code c)
  else '\\' :: 'U' :: digits 16 8 (code c)

def quoted (s : String) : String :=
  let chars := s.toList
  let quote := quoteFor (chars.contains '\'') (chars.contains '"')
  String.ofList (quote :: chars.flatMap (fun c => quotedChar quote (isPrintable c) c) ++ [quote])

/-- The text with an escape in place of each surrogate. -/
def escapeSurrogates (s : String) : String :=
  String.ofList <| s.toList.flatMap fun c =>
    if isSurrogate c then '\\' :: 'u' :: digits 16 4 (code c) else [c]

def quotedBytes (octets : List UInt8) : String :=
  let chars := octets.map fun o => Char.ofNat o.toNat
  let quote := quoteFor (chars.contains '\'') (chars.contains '"')
  let plain (c : Char) := 0x20 ≤ c.toNat && c.toNat < 0x7F
  String.ofList ('b' :: quote :: chars.flatMap (fun c => quotedChar quote (plain c) c) ++ [quote])

end SchemaClosure.Text
