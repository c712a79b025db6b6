import Mathlib.Data.Nat.Digits.Defs
import SchemaClosure.Number.Numeral
import SchemaClosure.Proofs.Number.Shortest

/-!
# Numerals of numbers

The digits of a number are read back (`Numeral.natOf?_toDigits`), with zeros in front of them or behind them. The text
of a decimal has a point, unless it is one digit with an exponent (`Binary64.Decimal.text_cases`), and a decimal with a
point is read by its digits (`Numeral.Pointed.decimal?_eq`).
-/

namespace SchemaClosure

namespace Numeral

/-! ## Digits -/

theorem exists_digitChar {c : Char} (h : c.isDigit = true) : ∃ d < 10, c = Nat.digitChar d := by
  have hrange : 48 ≤ c.toNat ∧ c.toNat ≤ 57 := by
    simpa [Char.isDigit, UInt32.le_iff_toNat_le] using h
  have hchar : ∀ d < 10, Nat.digitChar d = Char.ofNat (48 + d) := by decide
  refine ⟨c.toNat - 48, by omega, ?_⟩
  rw [hchar _ (by omega), Nat.add_sub_cancel' hrange.1, Char.ofNat_toNat]

/-- What is true of the ten digits is true of every digit. -/
theorem of_isDigit {p : Char → Prop} (hp : ∀ d < 10, p (Nat.digitChar d)) {c : Char} (h : c.isDigit = true) : p c := by
  obtain ⟨d, hd, rfl⟩ := exists_digitChar h
  exact hp d hd

theorem value?_digitChar : ∀ d < 10, value? (Nat.digitChar d) = some d := by
  decide

theorem isDigit_of_mem_toDigits {n : Nat} {c : Char} (h : c ∈ Nat.toDigits 10 n) : c.isDigit = true :=
  Nat.isDigit_of_mem_toDigits (by decide) (by decide) h

theorem natOf?_append (base : Nat) (s t : List Char) (acc : Nat) :
    natOf? base acc (s ++ t) = (natOf? base acc s).bind fun n => natOf? base n t := by
  induction s generalizing acc with
  | nil => rfl
  | cons c rest ih =>
    rw [List.cons_append, natOf?, natOf?]
    split
    · split
      · exact ih _
      · rfl
    · rfl

/-- The digits of a number are read behind others. -/
theorem natOf?_toDigits (n acc : Nat) :
    natOf? 10 acc (Nat.toDigits 10 n) = some (acc * 10 ^ (Nat.toDigits 10 n).length + n) := by
  induction n using Nat.strongRecOn with
  | _ n ih =>
    rw [Nat.toDigits_eq_if (by decide)]
    split
    · rename_i hn
      simp [natOf?, value?_digitChar n hn, hn]
    · rename_i hn
      have hless : n % 10 < 10 := Nat.mod_lt n (by decide)
      rw [natOf?_append, ih (n / 10) (by omega), Option.bind_some]
      simp only [natOf?, value?_digitChar _ hless, hless, if_true, List.length_append, List.length_singleton, pow_succ,
        Option.some.injEq]
      have := Nat.div_add_mod n 10
      generalize (Nat.toDigits 10 (n / 10)).length = k
      calc (acc * 10 ^ k + n / 10) * 10 + n % 10 = acc * (10 ^ k * 10) + (10 * (n / 10) + n % 10) := by ring
        _ = acc * (10 ^ k * 10) + n := by rw [this]

theorem lt_pow_length_toDigits (n : Nat) : n < 10 ^ (Nat.toDigits 10 n).length := by
  induction n using Nat.strongRecOn with
  | _ n ih =>
    rw [Nat.toDigits_eq_if (by decide)]
    split
    · rename_i hn
      simpa using hn
    · rename_i hn
      have hless := ih (n / 10) (by omega)
      rw [List.length_append, List.length_singleton, pow_succ]
      omega

theorem length_toDigits_le_iff {n k : Nat} (hk : k ≠ 0) : (Nat.toDigits 10 n).length ≤ k ↔ n < 10 ^ k := by
  constructor
  · intro h
    exact Nat.lt_of_lt_of_le (lt_pow_length_toDigits n) (Nat.pow_le_pow_right (by decide) h)
  · exact Nat.toDigits_length 10 n k (Nat.pos_of_ne_zero hk)

/-- An integer has a text if it is small enough. -/
theorem isSome_text?_iff {n : Int} : (text? n).isSome = true ↔ n.natAbs < 10 ^ maxDecimalDigits := by
  have hlength : (toString n.natAbs).length = (Nat.toDigits 10 n.natAbs).length := by
    rw [Nat.toString_eq_repr, Nat.repr_eq_ofList_toDigits, String.length_ofList]
  rw [← length_toDigits_le_iff (by decide), text?, hlength]
  split <;> simp_all

theorem natOf?_zeros (k acc : Nat) : natOf? 10 acc (List.replicate k '0') = some (acc * 10 ^ k) := by
  induction k generalizing acc with
  | zero => simp [natOf?]
  | succ k ih =>
    have hzero : value? '0' = some 0 := by decide
    rw [List.replicate_succ, natOf?, hzero]
    dsimp only
    rw [if_pos (by decide), ih, pow_succ]
    congr 1
    ring

/-- Zeros in front do not count. -/
theorem natOf?_zeros_toDigits (k n : Nat) : natOf? 10 0 (List.replicate k '0' ++ Nat.toDigits 10 n) = some n := by
  rw [natOf?_append, natOf?_zeros, Option.bind_some, natOf?_toDigits, Nat.zero_mul, Nat.zero_mul, Nat.zero_add]

/-! ## Decimals -/

theorem isDigit_of_isDigit {c : Char} (h : c.isDigit = true) : Text.isDigit c = true :=
  of_isDigit (p := fun c => Text.isDigit c = true) (by decide) h

/-- What stands behind the digits of a decimal: nothing, or an exponent. -/
def tail : Option Int → List Char
  | none => []
  | some e => 'e' :: (if e < 0 then '-' else '+') :: Text.digits 10 2 e.natAbs

theorem exponent?_tail (e : Option Int) : exponent? (tail e) = some (e.getD 0) := by
  cases e with
  | none => rfl
  | some e =>
    have hne : (Text.digits 10 2 e.natAbs).isEmpty = false := by
      simp [Text.digits, Nat.toDigits_ne_nil]
    have hvalue : natOf? 10 0 (Text.digits 10 2 e.natAbs) = some e.natAbs := natOf?_zeros_toDigits _ _
    have hmark : 'e'.toLower = 'e' := by decide
    rw [tail]
    split
    · rename_i h
      simp [exponent?, cutSign, hne, hvalue, hmark, abs_of_neg h]
    · rename_i h
      simp [exponent?, cutSign, hne, hvalue, hmark, abs_of_nonneg (not_lt.1 h)]

/-- The text of a decimal with a point: digits on both sides of it, and what stands behind them. -/
structure Pointed (text whole part : List Char) (e : Option Int) : Prop where
  text_eq : text = whole ++ '.' :: (part ++ tail e)
  whole_ne : whole ≠ []
  whole_digits : ∀ c ∈ whole, c.isDigit = true
  part_digits : ∀ c ∈ part, c.isDigit = true

/-- A decimal with a point is read by its digits and its exponent. -/
theorem Pointed.decimal?_eq {text whole part : List Char} {e : Option Int} (h : Pointed text whole part e)
    {digits : Nat} (hdigits : natOf? 10 0 (whole ++ part) = some digits) (negative : Bool) :
    decimal? negative text = some (Binary64.ofDecimal negative digits (e.getD 0 - part.length)) := by
  have hcut : ∀ {s t : List Char}, (∀ c ∈ s, c.isDigit = true) → t.takeWhile Text.isDigit = [] →
      (s ++ t).takeWhile Text.isDigit = s ∧ (s ++ t).dropWhile Text.isDigit = t := by
    intro s t hs ht
    have hs' : ∀ c ∈ s, Text.isDigit c = true := fun c hc => isDigit_of_isDigit (hs c hc)
    have hdrop : t.dropWhile Text.isDigit = t := by
      have := List.takeWhile_append_dropWhile (p := Text.isDigit) (l := t)
      rwa [ht, List.nil_append] at this
    constructor
    · rw [List.takeWhile_append_of_pos hs', ht, List.append_nil]
    · rw [List.dropWhile_append_of_pos hs', hdrop]
  have hpoint : ('.' :: (part ++ tail e)).takeWhile Text.isDigit = [] := List.takeWhile_cons_of_neg (by decide)
  have hend : (tail e).takeWhile Text.isDigit = [] := by
    cases e with
    | none => rfl
    | some e => exact List.takeWhile_cons_of_neg (by decide)
  obtain ⟨htake, hdrop⟩ := hcut h.whole_digits hpoint
  obtain ⟨htake', hdrop'⟩ := hcut h.part_digits hend
  have hguard : (!(whole.isEmpty && part.isEmpty)) = true := by
    cases whole with
    | nil => exact absurd rfl h.whole_ne
    | cons _ _ => rfl
  rw [h.text_eq]
  simp only [decimal?, htake, hdrop, htake', hdrop', hguard, exponent?_tail, hdigits]
  rfl

end Numeral

namespace Binary64

open Numeral

/-- A text is that of a decimal with a point, of some value. -/
def Points (text : List Char) (value : ℚ) : Prop :=
  ∃ whole part e digits, Pointed text whole part e ∧ natOf? 10 0 (whole ++ part) = some digits ∧
    (Decimal.mk digits (e.getD 0 - part.length)).value = value

section

variable {written : List Char} {n : Nat}

theorem isDigit_zeros (k : Nat) : ∀ c ∈ List.replicate k '0', c.isDigit = true := by
  intro c hc
  rw [List.eq_of_mem_replicate hc]
  rfl

/-- A point among digits. -/
theorem points_among (hdigits : ∀ c ∈ written, c.isDigit = true) (hread : natOf? 10 0 written = some n) {k : Nat}
    (hk : written.take k ≠ []) {e : Option Int} {exponent : Int} (he : e.getD 0 - (written.drop k).length = exponent) :
    Points (written.take k ++ '.' :: (written.drop k ++ tail e)) (Decimal.mk n exponent).value := by
  refine ⟨_, _, e, n, ⟨rfl, hk, ?_, ?_⟩, ?_, by rw [he]⟩
  · exact fun c hc => hdigits c (List.mem_of_mem_take hc)
  · exact fun c hc => hdigits c (List.mem_of_mem_drop hc)
  · rwa [List.take_append_drop]

/-- A point in front of zeros and digits. -/
theorem points_before (hdigits : ∀ c ∈ written, c.isDigit = true) (hread : natOf? 10 0 written = some n) (k : Nat)
    {exponent : Int} (he : exponent = -((k : Int) + written.length)) :
    Points ('0' :: '.' :: (List.replicate k '0' ++ written)) (Decimal.mk n exponent).value := by
  refine ⟨['0'], List.replicate k '0' ++ written, none, n, ⟨by simp [tail], by simp, by simp, ?_⟩, ?_, ?_⟩
  · exact List.forall_mem_append.2 ⟨isDigit_zeros k, hdigits⟩
  · have hzeros : ['0'] ++ List.replicate k '0' = List.replicate (k + 1) '0' := rfl
    rwa [← List.append_assoc, natOf?_append, hzeros, natOf?_zeros, Nat.zero_mul, Option.bind_some]
  · rw [List.length_append, List.length_replicate, Option.getD_none, he, zero_sub]
    push_cast
    rfl

/-- A point behind digits and zeros. -/
theorem points_behind (hdigits : ∀ c ∈ written, c.isDigit = true) (hread : natOf? 10 0 written = some n)
    (hne : written ≠ []) (k : Nat) :
    Points (written ++ List.replicate k '0' ++ ['.', '0']) (Decimal.mk n k).value := by
  refine ⟨written ++ List.replicate k '0', ['0'], none, n * 10 ^ k * 10,
    ⟨by simp [tail], by simp [hne], List.forall_mem_append.2 ⟨hdigits, isDigit_zeros k⟩, by simp⟩, ?_, ?_⟩
  · rw [natOf?_append, natOf?_append, hread, Option.bind_some, natOf?_zeros, Option.bind_some]
    exact natOf?_zeros 1 _
  · rw [Decimal.value, Decimal.value]
    push_cast
    norm_num
    ring

end

/-- **The text of a decimal**: one digit with an exponent, or a decimal with a point of the same value. -/
theorem Decimal.text_cases (r : Decimal) (least greatest : Int) :
    (∃ c e, c.isDigit = true ∧ r.text least greatest = c :: tail (some e)) ∨
      Points (r.text least greatest) r.value := by
  have hdigits : ∀ c ∈ Nat.toDigits 10 r.digits, c.isDigit = true := fun c => isDigit_of_mem_toDigits
  have hread := natOf?_toDigits r.digits 0
  have hne : Nat.toDigits 10 r.digits ≠ [] := Nat.toDigits_ne_nil
  rw [Nat.zero_mul, Nat.zero_add] at hread
  unfold Decimal.text
  dsimp only
  generalize Nat.toDigits 10 r.digits = written at *
  have hlength : 0 < written.length := List.length_pos_iff.2 hne
  have htake : ∀ {k : Nat}, 0 < k → written.take k ≠ [] := by
    intro k hk hnil
    rcases List.take_eq_nil_iff.1 hnil with hzero | hnil
    · omega
    · exact hne hnil
  split
  · generalize he : (written.length : Int) + r.exponent - 1 = e
    by_cases hone : written.length = 1
    · obtain ⟨c, rfl⟩ := List.length_eq_one_iff.1 hone
      exact .inl ⟨c, e, hdigits c List.mem_cons_self, rfl⟩
    · have hexponent : (some e).getD 0 - (written.drop 1).length = r.exponent := by
        rw [List.length_drop, Option.getD_some]
        omega
      have hpoints := points_among hdigits hread (htake Nat.one_pos) hexponent
      refine .inr ?_
      rw [if_neg hone, List.append_assoc, List.append_assoc]
      exact hpoints
  · split
    · exact .inr (points_before hdigits hread _ (by omega))
    · split
      · have hexponent : r.exponent = ((written.length : Int) + r.exponent - written.length).toNat := by omega
        have hpoints := points_behind hdigits hread hne ((written.length : Int) + r.exponent - written.length).toNat
        rw [← hexponent] at hpoints
        exact .inr hpoints
      · have hexponent : (none : Option Int).getD 0 -
            (written.drop ((written.length : Int) + r.exponent).toNat).length = r.exponent := by
          rw [List.length_drop, Option.getD_none]
          omega
        have hpoints := points_among hdigits hread (htake (by omega)) hexponent
        rw [tail, List.append_nil] at hpoints
        exact .inr hpoints

end Binary64

end SchemaClosure
