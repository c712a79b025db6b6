import SchemaClosure.Document.Value

/-!
# Shared values

Values that occur at several places of a document and were written at one. The marks of those that
are met a second time, in this order, are the numbers of their anchors (`Sharing.of`). Each value is
gone through once, which also shows whether all its scalars have a text.
-/

namespace SchemaClosure.Yaml

/-- The marks that were met, those of them that were met again, in order, and whether every scalar that was
met has a text. -/
structure Sharing where
  met : List Mark
  shared : List Mark
  writable : Bool
  deriving DecidableEq, Repr

def markOf? : Scalar → Option Mark
  | .date mark _ => mark
  | .instant mark _ => mark
  | _ => none

namespace Sharing

/-- Meets a mark; tells whether it was met before. -/
def meet (s : Sharing) (m : Mark) : Bool × Sharing :=
  if s.met.contains m then (true, if s.shared.contains m then s else { s with shared := s.shared ++ [m] })
  else (false, { s with met := m :: s.met })

/-- Meets the mark of a value, if there is one. -/
def meet? (s : Sharing) : Option Mark → Bool × Sharing
  | none => (false, s)
  | some m => s.meet m

def scalar (s : Sharing) (x : Scalar) : Sharing :=
  { (s.meet? (markOf? x)).2 with writable := s.writable && x.isWritable }

mutual

/-- Meets a value and, unless it was met before, its parts. -/
def value (s : Sharing) : Value → Sharing
  | .scalar x => s.scalar x
  | .list mark items =>
    match s.meet? mark with
    | (true, s) => s
    | (false, s) => s.values items
  | .mapping mark entries =>
    match s.meet? mark with
    | (true, s) => s
    | (false, s) => s.entries entries
  | .set mark elements =>
    match s.meet? mark with
    | (true, s) => s
    | (false, s) => elements.foldl scalar s
  | .knot _ body => s.value body
  | .again mark => (s.meet mark).2

def values (s : Sharing) : List Value → Sharing
  | [] => s
  | v :: rest => (s.value v).values rest

def entries (s : Sharing) : List (Scalar × Value) → Sharing
  | [] => s
  | (k, v) :: rest => ((s.scalar k).value v).entries rest

end

/-- What is shared in a value: the marks that it holds more than once, in the order in which they come
again. -/
def of (v : Value) : Sharing :=
  value ⟨[], [], true⟩ v

end Sharing

end SchemaClosure.Yaml
