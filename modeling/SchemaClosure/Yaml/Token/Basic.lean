import SchemaClosure.Document.Fault

/-!
# Tokens

The tokens of YAML text. Where the indentation of the text opens or closes a collection there is a
token for it, and a key that is recognised only by the colon behind it has its token in front.
-/

namespace SchemaClosure.Yaml

/-- A line in front of a document. -/
inductive Directive where
  | version (major : Nat)
  | tag (handle stem : String)
  | other
  deriving DecidableEq, Repr

/-- A token. The handle of a tag is absent if the tag is spelled in full. -/
inductive Token where
  | directive (d : Directive)
  | documentStart
  | documentEnd
  | blockSequenceStart
  | blockMappingStart
  | blockEnd
  | flowSequenceStart
  | flowSequenceEnd
  | flowMappingStart
  | flowMappingEnd
  | blockEntry
  | flowEntry
  | key
  | value
  | reference (name : String)
  | anchor (name : String)
  | tag (handle : Option String) (suffix : String)
  | scalar (text : String) (plain : Bool)
  deriving DecidableEq, Repr

/-- The tokens of a text up to its end, or those that are known before the first fault in it. -/
structure Tokens where
  list : List Token
  fault : Option Fault
  deriving Repr

end SchemaClosure.Yaml
