import Mathlib.Data.List.Induction
import Mathlib.Data.Rat.Cast.Order
import Mathlib.Tactic.FieldSimp
import Mathlib.Tactic.Ring
import SchemaClosure.Document.Value

/-!
# Keys of mappings

Two scalars are one and the same key iff they have the same value (`Scalar.same_iff`): numbers and truth
values the number that they stand for, everything else a value of its own kind. A nan that is written as a
numeral without a mark has none, and so is not the same key as itself.

Hence being the same key is symmetric and transitive, and a mapping that entries are put into one after the
other has under each key what was put there last (`Mapping.get?_ofEntries`).
-/

namespace SchemaClosure

/-! ## Exact numbers -/

namespace Binary64

/-- The number that a significand and an exponent stand for. -/
def exact (negative : Bool) (m : Nat) (e : Int) : ℚ := (if negative then -(m : ℚ) else m) * 2 ^ e

/-- A number is as many units as it is said to be. -/
theorem units_mul_zpow {negative : Bool} {m : Nat} {e unit : Int} (h : unit ≤ e) :
    (units negative m e unit : ℚ) * 2 ^ unit = exact negative m e := by
  have hpow : ((2 : ℚ) ^ (e - unit).toNat) * 2 ^ unit = 2 ^ e := by
    rw [← zpow_natCast, ← zpow_add₀ two_ne_zero, Int.toNat_of_nonneg (by omega), sub_add_cancel]
  cases negative <;> simp [units, exact, ← hpow, mul_assoc]

theorem units_eq_iff {a b : Bool} {m n : Nat} {e f : Int} :
    units a m e (min e f) = units b n f (min e f) ↔ exact a m e = exact b n f := by
  have hpow : (2 : ℚ) ^ min e f ≠ 0 := zpow_ne_zero _ two_ne_zero
  rw [← units_mul_zpow (min_le_left e f), ← units_mul_zpow (min_le_right e f), mul_left_inj' hpow,
    Int.cast_inj]

theorem equalsInt_finite_iff {negative : Bool} {m : Nat} {e n : Int} :
    (Binary64.finite negative m e).equalsInt n = true ↔ exact negative m e = n := by
  have hpow : (2 : ℚ) ^ min e 0 ≠ 0 := zpow_ne_zero _ two_ne_zero
  have hint : ((n * Nat.pow 2 (-min e 0).toNat : Int) : ℚ) * 2 ^ min e 0 = n := by
    have hone : ((2 : ℚ) ^ (-min e 0).toNat) * 2 ^ min e 0 = 1 := by
      rw [← zpow_natCast, ← zpow_add₀ two_ne_zero, Int.toNat_of_nonneg (by omega), neg_add_cancel, zpow_zero]
    simp [mul_assoc, hone]
  rw [equalsInt, beq_iff_eq, ← units_mul_zpow (min_le_left e 0), ← hint, mul_left_inj' hpow, Int.cast_inj]

end Binary64

/-! ## Values of keys -/

/-- A number or an infinity. -/
inductive Extended where
  | finite (q : ℚ)
  | infinite (negative : Bool)

/-- What a key is compared by. -/
inductive KeyValue where
  | null
  | number (x : Extended)
  | nan (mark : Option Mark)
  | text (s : String)
  | bytes (octets : List UInt8)
  | date (d : Date)
  /-- Microseconds, on the scale of Greenwich if the place is known. -/
  | instant (placed : Bool) (microseconds : Int)

/-- The number that a binary number is; a nan is none. -/
def Binary64.extended? : Binary64 → Option Extended
  | .nan => none
  | .infinite negative => some (.infinite negative)
  | .finite negative m e => some (.finite (exact negative m e))

/-- What a nan is found again by; a numeral without a mark is not found again. -/
def NanOrigin.mark? : NanOrigin → Option (Option Mark)
  | .spelling => some none
  | .numeral mark => mark.map some

/-- The reading of the clock at Greenwich, or at the place itself if that is not known. -/
def Instant.microseconds (t : Instant) : Int := t.reading - t.offset.getD 0 * 60000000

/-- What a scalar is compared by as a key; none if it is not even the same as itself. -/
def Scalar.keyValue? : Scalar → Option KeyValue
  | .null => some .null
  | .bool b => some (.number (.finite (if b then 1 else 0)))
  | .int n => some (.number (.finite n))
  | .float x => x.extended?.map .number
  | .nan origin => origin.mark?.map .nan
  | .text s => some (.text s)
  | .bytes octets => some (.bytes octets)
  | .date _ d => some (.date d)
  | .instant _ t => some (.instant t.offset.isSome t.microseconds)

theorem exists_common_iff {α : Type} {x y : α} : (∃ k, some x = some k ∧ some y = some k) ↔ x = y := by
  constructor
  · rintro ⟨k, hx, hy⟩
    exact Option.some.inj (hx.trans hy.symm)
  · rintro rfl
    exact ⟨x, rfl, rfl⟩

theorem Binary64.compare?_eq_iff {x y : Binary64} :
    x.compare? y = some .eq ↔ ∃ k, x.extended? = some k ∧ y.extended? = some k := by
  cases x <;> cases y
  case finite.finite a m e b n f =>
    rw [compare?, extended?, extended?, exists_common_iff, Option.some.injEq, compare_eq_iff_eq,
      units_eq_iff, Extended.finite.injEq]
  case infinite.infinite a b => cases a <;> cases b <;> simp [compare?, extended?]
  case infinite.finite a b n f => cases a <;> simp [compare?, extended?]
  case finite.infinite a m e b => cases b <;> simp [compare?, extended?]
  all_goals simp [compare?, extended?]

theorem Binary64.equalsInt_iff {x : Binary64} {n : Int} :
    x.equalsInt n = true ↔ x.extended? = some (.finite n) := by
  cases x with
  | finite negative m e => simp [extended?, equalsInt_finite_iff]
  | _ => simp [equalsInt, extended?]

theorem NanOrigin.same_iff {a b : NanOrigin} :
    a.same b = true ↔ ∃ k, a.mark? = some k ∧ b.mark? = some k := by
  rcases a with _ | _ | m <;> rcases b with _ | _ | n <;> simp [same, mark?, eq_comm]

theorem Instant.same_iff {s t : Instant} : s.same t = true ↔
    s.offset.isSome = t.offset.isSome ∧ s.microseconds = t.microseconds := by
  unfold same microseconds
  cases s.offset <;> cases t.offset <;> simp

namespace Scalar

/-- Of the scalars that are not binary numbers, those with the value of a number are integers. -/
theorem keyValue?_eq_number_iff {a : Scalar} (ha : ∀ y, a = .float y → False) {x : Extended} :
    a.keyValue? = some (.number x) ↔ ∃ n, a.integer? = some n ∧ x = .finite n := by
  cases a
  case float y => exact absurd rfl (ha y)
  case bool b => cases b <;> simp [integer?, keyValue?, eq_comm]
  case int n => simp [integer?, keyValue?, eq_comm]
  all_goals simp [integer?, keyValue?]

/-- A binary number is the same key as a scalar of another kind iff that is an integer of its value. -/
theorem any_equalsInt_iff {x : Binary64} {a : Scalar} (ha : ∀ y, a = .float y → False) :
    a.integer?.any (fun n => x.equalsInt n) = true ↔
      ∃ k, (Scalar.float x).keyValue? = some k ∧ a.keyValue? = some k := by
  simp only [Option.any_eq_true, Binary64.equalsInt_iff]
  constructor
  · rintro ⟨n, hn, hx⟩
    exact ⟨.number (.finite n), by simp [keyValue?, hx], (keyValue?_eq_number_iff ha).2 ⟨n, hn, rfl⟩⟩
  · rintro ⟨k, hx, hk⟩
    obtain ⟨value, hvalue, rfl⟩ := Option.map_eq_some_iff.1 hx
    obtain ⟨n, hn, rfl⟩ := (keyValue?_eq_number_iff ha).1 hk
    exact ⟨n, hn, hvalue⟩

/-- An integer is the same key as a scalar that is no binary number iff that is the same integer. -/
theorem integer?_eq_iff {a b : Scalar} (ha : ∀ y, a = .float y → False) (hb : ∀ y, b = .float y → False)
    {n : Int} (hn : a.integer? = some n) :
    (a.integer?.isSome && a.integer? == b.integer?) = true ↔
      ∃ k, a.keyValue? = some k ∧ b.keyValue? = some k := by
  rw [(keyValue?_eq_number_iff ha).2 ⟨n, hn, rfl⟩, hn]
  simp only [Option.isSome_some, Bool.true_and, beq_iff_eq, Option.some.injEq, exists_eq_left',
    keyValue?_eq_number_iff hb, Extended.finite.injEq, Int.cast_inj, exists_eq_right']
  exact eq_comm

/-- **Two scalars are one and the same key** iff they have one value. -/
theorem same_iff {a b : Scalar} : a.same b = true ↔
    ∃ k, a.keyValue? = some k ∧ b.keyValue? = some k := by
  fun_cases same a b with
  | case1 => simp [keyValue?]
  | case2 s t => simp only [keyValue?, exists_common_iff, KeyValue.text.injEq, beq_iff_eq]
  | case3 s t => simp only [keyValue?, exists_common_iff, KeyValue.bytes.injEq, beq_iff_eq]
  | case4 m d n e => simp only [keyValue?, exists_common_iff, KeyValue.date.injEq, beq_iff_eq]
  | case5 m s n t =>
    simp only [keyValue?, exists_common_iff, KeyValue.instant.injEq, Instant.same_iff]
  | case6 s t => simp [keyValue?, NanOrigin.same_iff]
  | case7 x y => simp [keyValue?, Binary64.compare?_eq_iff]
  | case8 b x hb => exact any_equalsInt_iff hb
  | case9 a x ha =>
    rw [any_equalsInt_iff ha]
    simp only [and_comm]
  | case10 a b hnull htext hbytes hdate hinstant hnan _ ha hb =>
    cases hinteger : a.integer? with
    | some n =>
      rw [← hinteger]
      exact integer?_eq_iff ha hb hinteger
    | none =>
      -- the two are of different kinds, and neither is a number
      cases a <;> cases b
      case instant.instant => exact absurd rfl (hinstant _ _ _ _ rfl)
      all_goals simp_all [integer?, keyValue?]

/-- What is the same as a key is the same as whatever that is the same as. -/
theorem same_congr {a b : Scalar} (h : a.same b = true) (c : Scalar) : a.same c = b.same c := by
  obtain ⟨k, ha, hb⟩ := same_iff.1 h
  rw [Bool.eq_iff_iff, same_iff, same_iff, ha, hb]

theorem same_comm (a b : Scalar) : a.same b = b.same a := by
  rw [Bool.eq_iff_iff, same_iff, same_iff]
  simp only [and_comm]

end Scalar

/-! ## Entries put one after the other -/

namespace Mapping

/-- Under a key is what was put there, under any other what was there before. -/
theorem get?_put (key other : Scalar) (value : Value) (m : Mapping) :
    get? key (m.put other value) = if other.same key then some value else get? key m := by
  unfold put
  induction m with
  | nil => rfl
  | cons entry rest ih =>
    obtain ⟨k, v⟩ := entry
    by_cases hk : k.same other = true
    · rw [Scalar.put, if_pos hk, get?, get?, Scalar.same_congr hk]
      split <;> rfl
    · rw [Scalar.put, if_neg hk, get?, get?, ih]
      -- a key that is not the one put in cannot be found together with it
      by_cases hkey : k.same key = true
      · have hother : ¬ other.same key = true := by
          intro hother
          rw [Scalar.same_comm, Scalar.same_congr hother, Scalar.same_comm] at hk
          exact hk hkey
        rw [if_pos hkey, if_neg hother, if_pos hkey]
      · rw [if_neg hkey, if_neg hkey]

/-- **What was put last** under a key is there when entries were put one after the other. -/
theorem get?_ofEntries (key : Scalar) (entries : List (Scalar × Value)) :
    get? key (ofEntries entries) =
      ((entries.filter fun entry => entry.1.same key).getLast?).map Prod.snd := by
  unfold ofEntries update
  induction entries using List.reverseRecOn with
  | nil => rfl
  | append_singleton entries last ih =>
    rw [List.foldl_append, List.foldl_cons, List.foldl_nil, get?_put, ih, List.filter_append]
    cases h : last.1.same key <;> simp [h]

end Mapping

end SchemaClosure
