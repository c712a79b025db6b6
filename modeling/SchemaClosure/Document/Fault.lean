/-!
# Faults in document text

Why a text denotes no value, and why a value has no text. Most faults of a text lie in its form; the
others are scalars whose tag promises a kind of value that their text does not spell.
-/

namespace SchemaClosure

/-- Why a text denotes no value. -/
inductive Fault where
  /-- The text is not well formed, or a node does not fit its tag. -/
  | malformed
  /-- A numeral that denotes no number. -/
  | notNumber
  /-- A numeral without any text. -/
  | emptyNumeral
  /-- A number that exceeds what it is needed for. -/
  | tooLarge
  /-- A day or time of day that does not exist. -/
  | noSuchTime
  /-- A text that has not the form of a day or time. -/
  | notTime
  /-- A day or time that is a mapping instead of a text. -/
  | timeNotText
  /-- A word that names no truth value. -/
  | notTruthValue
  /-- An escape beyond the last code point. -/
  | noSuchCharacter
  /-- A mapping whose value key leads back to it. -/
  | endless
  deriving DecidableEq, Repr

/-- Why a value has no text in a format. -/
inductive Unwritable where
  /-- The format has no form for a value of this kind. -/
  | noForm
  /-- A list or mapping holds itself. -/
  | endless
  /-- An integer has too many digits. -/
  | numberTooLong
  deriving DecidableEq, Repr

end SchemaClosure
