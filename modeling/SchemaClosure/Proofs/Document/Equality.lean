import SchemaClosure.Document.Value

/-!
# Equality of values

Whether two values are equal can be computed (`Value.same_iff`).
-/

namespace SchemaClosure.Value

mutual

/-- Whether two values are equal, marks included. -/
def same : Value → Value → Bool
  | .scalar s, .scalar t => s = t
  | .list m items, .list n others => m = n && sameItems items others
  | .mapping m entries, .mapping n others => m = n && sameEntries entries others
  | .set m elements, .set n others => m = n && elements = others
  | .knot m body, .knot n other => m = n && same body other
  | .again m, .again n => m = n
  | _, _ => false

/-- Whether two lists of values are equal. -/
def sameItems : List Value → List Value → Bool
  | [], [] => true
  | v :: items, w :: others => same v w && sameItems items others
  | _, _ => false

/-- Whether two lists of entries are equal. -/
def sameEntries : List (Scalar × Value) → List (Scalar × Value) → Bool
  | [], [] => true
  | (key, v) :: entries, (other, w) :: others => key = other && same v w && sameEntries entries others
  | _, _ => false

end

mutual

theorem same_iff : ∀ v w : Value, same v w = true ↔ v = w
  | .scalar s, w => by cases w <;> simp [same]
  | .list m items, w => by cases w <;> simp [same, sameItems_iff items]
  | .mapping m entries, w => by cases w <;> simp [same, sameEntries_iff entries]
  | .set m elements, w => by cases w <;> simp [same]
  | .knot m body, w => by cases w <;> simp [same, same_iff body]
  | .again m, w => by cases w <;> simp [same]

theorem sameItems_iff : ∀ items others : List Value, sameItems items others = true ↔ items = others
  | [], others => by cases others <;> simp [sameItems]
  | v :: items, others => by cases others <;> simp [sameItems, same_iff v, sameItems_iff items]

theorem sameEntries_iff : ∀ entries others : List (Scalar × Value), sameEntries entries others = true ↔ entries = others
  | [], others => by cases others <;> simp [sameEntries]
  | (key, v) :: entries, others => by
    cases others with
    | nil => simp [sameEntries]
    | cons other others => simp [sameEntries, same_iff v, sameEntries_iff entries, Prod.ext_iff, and_assoc]

end

instance : DecidableEq Value := fun v w => decidable_of_iff (same v w = true) (same_iff v w)

end SchemaClosure.Value
