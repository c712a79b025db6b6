import SchemaClosure.Document.Scalar

/-!
# Values of documents

What YAML and JSON text denotes: scalars, lists, mappings whose keys are scalars, and sets of
scalars. The entries of a mapping keep their order; a key that is put again keeps its place and its
first spelling and takes the new value (`Mapping.put`). A container may carry the mark of the place
where it was written, so that one that is referred to twice can be told from an equal one.

A list or mapping may hold itself. It is then written as a knot: inside of the knot's body, `again`
with its mark stands for the whole. `Value.unrolled` lays the outermost layer of a knot open.
-/

namespace SchemaClosure

inductive Value where
  | scalar (s : Scalar)
  | list (mark : Option Mark) (items : List Value)
  | mapping (mark : Option Mark) (entries : List (Scalar × Value))
  | set (mark : Option Mark) (elements : List Scalar)
  /-- A list or mapping that holds itself. -/
  | knot (mark : Mark) (body : Value)
  /-- The whole of the knot around this place that has the mark. -/
  | again (mark : Mark)
  deriving Inhabited

/-- The entries of a mapping, in order. -/
abbrev Mapping := List (Scalar × Value)

namespace Value

@[match_pattern] abbrev null : Value := .scalar .null

@[match_pattern] abbrev text (s : String) : Value := .scalar (.text s)

@[match_pattern] abbrev int (n : Int) : Value := .scalar (.int n)

/-- Whether the value stands for nothing: a void scalar or an empty container. -/
def isVoid : Value → Bool
  | .scalar s => s.isVoid
  | .list _ items => items.isEmpty
  | .mapping _ entries => entries.isEmpty
  | .set _ elements => elements.isEmpty
  | .knot _ body => body.isVoid
  | .again _ => false

mutual

/-- The value with `whole` at the places that stand for the knot of a mark. -/
def tie (mark : Mark) (whole : Value) : Value → Value
  | .scalar s => .scalar s
  | .list m items => .list m (tieItems mark whole items)
  | .mapping m entries => .mapping m (tieEntries mark whole entries)
  | .set m elements => .set m elements
  | .knot m body => .knot m (if m = mark then body else tie mark whole body)
  | .again m => if m = mark then whole else .again m

/-- The items with `whole` at the places that stand for the knot of a mark. -/
def tieItems (mark : Mark) (whole : Value) : List Value → List Value
  | [] => []
  | v :: rest => tie mark whole v :: tieItems mark whole rest

/-- The entries with `whole` at the places that stand for the knot of a mark. -/
def tieEntries (mark : Mark) (whole : Value) : List (Scalar × Value) → List (Scalar × Value)
  | [] => []
  | (k, v) :: rest => (k, tie mark whole v) :: tieEntries mark whole rest

end

/-- The value with its outermost layer laid open: a knot becomes the list or mapping that it is. -/
def unrolled : Value → Value
  | .knot mark body => tie mark (.knot mark body) body
  | v => v

end Value

namespace Mapping

/-- The value under a key. -/
def get? (key : Scalar) : Mapping → Option Value
  | [] => none
  | (k, v) :: rest => if k.same key then some v else get? key rest

/-- The value under a name; what is absent is null. -/
def field (name : String) (m : Mapping) : Value :=
  (get? (.text name) m).getD .null

def has (name : String) (m : Mapping) : Bool :=
  (get? (.text name) m).isSome

/-- Puts a value under a key: in place if the key is there, else at the end. -/
def put (key : Scalar) (value : Value) (m : Mapping) : Mapping :=
  key.put value m

/-- Puts all entries of `news` in order. -/
def update (m news : Mapping) : Mapping :=
  news.foldl (fun m (k, v) => m.put k v) m

/-- The mapping that results from putting the entries one after the other. -/
def ofEntries (entries : List (Scalar × Value)) : Mapping :=
  update [] entries

end Mapping

end SchemaClosure
