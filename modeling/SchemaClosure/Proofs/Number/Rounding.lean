import Mathlib.Algebra.Order.Field.Power
import Mathlib.Data.Rat.Cast.Order
import Mathlib.Tactic.FieldSimp
import Mathlib.Tactic.Linarith
import SchemaClosure.Number.Binary64

/-!
# What is rounded to a number

Rounding gives a number back for every fraction within its reach (`Binary64.round_eq`). The reach of
`m · 2 ^ e` goes half a unit up and half a unit down, and only a quarter of a unit down from the least
full significand, where the numbers below lie closer together (`Binary64.Reach`). Its ends belong to it when
the significand is even.
-/

namespace SchemaClosure

namespace Binary64

/-- A significand and an exponent of a finite number: the significand is full, or the exponent is the least. -/
structure Proper (m : Nat) (e : Int) : Prop where
  significand : m < 2 ^ 53
  least : minExponent ≤ e
  greatest : e ≤ maxExponent
  full : 2 ^ 52 ≤ m ∨ e = minExponent

/-- Whether a number is represented by a significand and an exponent that are proper. -/
def isProper : Binary64 → Bool
  | .finite _ m e => m < 2 ^ 53 && minExponent ≤ e && e ≤ maxExponent && (2 ^ 52 ≤ m || e = minExponent)
  | _ => true

theorem proper_of_isProper {negative : Bool} {m : Nat} {e : Int} (h : (Binary64.finite negative m e).isProper = true) :
    Proper m e := by
  simp only [isProper, Bool.and_eq_true, Bool.or_eq_true, decide_eq_true_eq] at h
  obtain ⟨⟨⟨hm, hleast⟩, hgreatest⟩, hfull⟩ := h
  exact ⟨hm, hleast, hgreatest, hfull⟩

/-- How many quarters of a unit the reach of a number goes down. -/
def quartersDown (m : Nat) (e : Int) : Nat := if m = 2 ^ 52 ∧ minExponent < e then 1 else 2

/-- What is within the reach of a number, in units of the exponent. -/
structure Reach (m : Nat) (e : Int) (t : ℚ) : Prop where
  low : 4 * m - quartersDown m e ≤ 4 * t
  high : 4 * t ≤ 4 * m + 2
  ends : m % 2 = 0 ∨ 4 * m - quartersDown m e < 4 * t ∧ 4 * t < 4 * m + 2

theorem quartersDown_le (m : Nat) (e : Int) : (quartersDown m e : ℚ) ≤ 2 := by
  unfold quartersDown
  split <;> norm_num

/-! ## The significand -/

/-- A fraction rounds to an integer when it is within a half of it, ends going to even integers. -/
theorem divideEven_eq {a b m : Nat} (hb : 0 < b) (hlow : 2 * m * b ≤ 2 * a + b) (hhigh : 2 * a ≤ 2 * m * b + b)
    (hends : m % 2 = 0 ∨ 2 * m * b < 2 * a + b ∧ 2 * a < 2 * m * b + b) : divideEven a b = m := by
  have hmod := Nat.div_add_mod a b
  have hlt := Nat.mod_lt a hb
  unfold divideEven
  dsimp only
  generalize a / b = q at *
  generalize a % b = r at *
  subst hmod
  have hm : m = q ∨ m = q + 1 := by
    by_contra hne
    rw [not_or] at hne
    rcases Nat.lt_or_gt_of_ne hne.1 with hless | hmore
    · have : (m + 1) * b ≤ q * b := Nat.mul_le_mul_right b hless
      nlinarith
    · have : (q + 2) * b ≤ m * b := Nat.mul_le_mul_right b (by omega)
      nlinarith
  rcases hm with rfl | rfl
  · have hhalf : 2 * r ≤ b := by nlinarith
    split
    · rfl
    · have heven : m % 2 = 0 := by
        rcases hends with heven | ⟨-, hstrict⟩
        · exact heven
        · exact absurd (show 2 * r < b by nlinarith) ‹_›
      rw [if_neg (by omega), if_pos heven]
  · have hhalf : b ≤ 2 * r := by nlinarith
    rw [if_neg (by omega)]
    split
    · rfl
    · have heven : (q + 1) % 2 = 0 := by
        rcases hends with heven | ⟨hstrict, -⟩
        · exact heven
        · exact absurd (show b < 2 * r by nlinarith) ‹_›
      rw [if_neg (by omega)]

/-- Scaling divides by a power of two. -/
theorem scale_eq (n : Nat) {d : Nat} (hd : 0 < d) (e : Int) :
    0 < (scale n d e).2 ∧ ((scale n d e).1 : ℚ) = n / d / 2 ^ e * (scale n d e).2 := by
  have hd' : (d : ℚ) ≠ 0 := by positivity
  unfold scale
  split
  · rename_i he
    refine ⟨hd, ?_⟩
    obtain ⟨k, hk⟩ : ∃ k : Nat, e = -k := ⟨(-e).toNat, by omega⟩
    subst hk
    have : (-(-(k : Int))).toNat = k := by omega
    rw [this, zpow_neg, zpow_natCast]
    push_cast [Nat.pow_eq]
    field_simp
  · obtain ⟨k, hk⟩ : ∃ k : Nat, e = k := ⟨e.toNat, by omega⟩
    subst hk
    refine ⟨by simpa using hd, ?_⟩
    rw [Int.toNat_natCast, zpow_natCast]
    push_cast [Nat.pow_eq]
    field_simp

/-- The significand of a fraction for an exponent, when it is within a half of it. -/
theorem divideEven_scale {n d m : Nat} (hd : 0 < d) {e : Int} {t : ℚ} (ht : (n / d : ℚ) = t * 2 ^ e)
    (hlow : 2 * m - 1 ≤ 2 * t) (hhigh : 2 * t ≤ 2 * m + 1)
    (hends : m % 2 = 0 ∨ 2 * m - 1 < 2 * t ∧ 2 * t < 2 * m + 1) :
    divideEven (scale n d e).1 (scale n d e).2 = m := by
  obtain ⟨hb, ha⟩ := scale_eq n hd e
  generalize (scale n d e).1 = a at *
  generalize (scale n d e).2 = b at *
  have hb' : (0 : ℚ) < b := by exact_mod_cast hb
  have hpow : (2 : ℚ) ^ e ≠ 0 := by positivity
  rw [ht, mul_div_assoc, div_self hpow, mul_one] at ha
  refine divideEven_eq hb ?_ ?_ ?_
  · have : (2 * m * b : ℚ) ≤ 2 * a + b := by rw [ha]; nlinarith
    exact_mod_cast this
  · have : (2 * a : ℚ) ≤ 2 * m * b + b := by rw [ha]; nlinarith
    exact_mod_cast this
  · refine hends.imp_right fun ⟨hlow, hhigh⟩ => ⟨?_, ?_⟩
    · have : (2 * m * b : ℚ) < 2 * a + b := by rw [ha]; nlinarith
      exact_mod_cast this
    · have : (2 * a : ℚ) < 2 * m * b + b := by rw [ha]; nlinarith
      exact_mod_cast this

/-! ## The exponent -/

/-- A fraction lies between the powers of two that the logarithms of its parts tell. -/
theorem log2_bounds {n d : Nat} (hn : 0 < n) (hd : 0 < d) :
    (2 : ℚ) ^ ((n.log2 : Int) - d.log2 - 1) ≤ n / d ∧ (n / d : ℚ) < 2 ^ ((n.log2 : Int) - d.log2 + 1) := by
  have hnlow : (2 : ℚ) ^ n.log2 ≤ n := by exact_mod_cast Nat.log2_self_le hn.ne'
  have hnhigh : (n : ℚ) < 2 ^ (n.log2 + 1) := by exact_mod_cast Nat.lt_log2_self
  have hdlow : (2 : ℚ) ^ d.log2 ≤ d := by exact_mod_cast Nat.log2_self_le hd.ne'
  have hdhigh : (d : ℚ) < 2 ^ (d.log2 + 1) := by exact_mod_cast Nat.lt_log2_self
  have hd' : (0 : ℚ) < d := by exact_mod_cast hd
  constructor
  · rw [le_div_iff₀ hd']
    calc (2 : ℚ) ^ ((n.log2 : Int) - d.log2 - 1) * d
        ≤ 2 ^ ((n.log2 : Int) - d.log2 - 1) * 2 ^ (d.log2 + 1) := by gcongr
      _ = 2 ^ n.log2 := by
        rw [← zpow_natCast, ← zpow_natCast, ← zpow_add₀ two_ne_zero]
        congr 1
        push_cast
        omega
      _ ≤ n := hnlow
  · rw [div_lt_iff₀ hd']
    calc (n : ℚ) < 2 ^ (n.log2 + 1) := hnhigh
      _ = 2 ^ ((n.log2 : Int) - d.log2 + 1) * 2 ^ d.log2 := by
        rw [← zpow_natCast, ← zpow_natCast, ← zpow_add₀ two_ne_zero]
        congr 1
        push_cast
        omega
      _ ≤ 2 ^ ((n.log2 : Int) - d.log2 + 1) * d := by gcongr

/-- The exponent of the last place is the one that gives a full significand, or the least one. -/
theorem lastPlace_eq {n d : Nat} (hn : 0 < n) (hd : 0 < d) :
    ∃ e : Int, lastPlace n d = max e minExponent ∧ (2 : ℚ) ^ 52 * 2 ^ e ≤ n / d ∧ (n / d : ℚ) < 2 ^ 53 * 2 ^ e := by
  obtain ⟨hlow, hhigh⟩ := log2_bounds hn hd
  unfold lastPlace
  generalize hg : (n.log2 : Int) - d.log2 - 52 = g
  have hpow : ∀ k : Nat, (2 : ℚ) ^ k * 2 ^ g = 2 ^ (g + k) := by
    intro k
    rw [← zpow_natCast, ← zpow_add₀ two_ne_zero, add_comm]
  obtain ⟨hb, ha⟩ := scale_eq n hd g
  have hb' : (0 : ℚ) < (scale n d g).2 := by exact_mod_cast hb
  have htest : (scale n d g).1 < (scale n d g).2 * Nat.pow 2 52 ↔ (n / d : ℚ) < 2 ^ 52 * 2 ^ g := by
    have hcast : ((Nat.pow 2 52 : Nat) : ℚ) = 2 ^ 52 := by norm_num
    rw [← Nat.cast_lt (α := ℚ), ha, Nat.cast_mul, hcast, mul_comm ((scale n d g).2 : ℚ),
      mul_lt_mul_iff_left₀ hb', div_lt_iff₀ (by positivity)]
  refine ⟨if (scale n d g).1 < (scale n d g).2 * Nat.pow 2 52 then g - 1 else g, rfl, ?_⟩
  split
  · rename_i h
    have hhalf : ∀ k : Nat, (2 : ℚ) ^ (k + 1) * 2 ^ (g - 1) = 2 ^ k * 2 ^ g := by
      intro k
      rw [zpow_sub_one₀ two_ne_zero, pow_succ]
      field_simp
    rw [hhalf, hhalf, hpow]
    refine ⟨le_trans (le_of_eq ?_) hlow, htest.1 h⟩
    congr 1
    omega
  · rename_i h
    refine ⟨not_lt.1 fun hlt => h (htest.2 hlt), ?_⟩
    rw [hpow]
    refine lt_of_lt_of_eq hhigh ?_
    congr 1
    omega

/-- Only one exponent gives a full significand. -/
theorem exponent_unique {q : ℚ} {e f : Int} (he : (2 : ℚ) ^ 52 * 2 ^ e ≤ q) (hf : q < (2 : ℚ) ^ 53 * 2 ^ f) :
    e ≤ f := by
  have h : (2 : ℚ) ^ (e + 52) < 2 ^ (f + 53) := by
    rw [zpow_add₀ two_ne_zero, zpow_add₀ two_ne_zero]
    calc (2 : ℚ) ^ e * 2 ^ (52 : Int) = 2 ^ 52 * 2 ^ e := by rw [mul_comm]; norm_cast
      _ < 2 ^ 53 * 2 ^ f := he.trans_lt hf
      _ = 2 ^ f * 2 ^ (53 : Int) := by rw [mul_comm]; norm_cast
  have := (zpow_lt_zpow_iff_right₀ (one_lt_two : (1 : ℚ) < 2)).1 h
  omega

/-! ## Rounding -/

/-- Rounding in terms of the exponent of the last place. -/
theorem round_of_lastPlace {n d : Nat} {e : Int} (hn : n ≠ 0) (he : lastPlace n d = e) (negative : Bool) :
    round negative n d =
      if divideEven (scale n d e).1 (scale n d e).2 = 2 ^ 53 then pack negative (2 ^ 52) (e + 1)
      else pack negative (divideEven (scale n d e).1 (scale n d e).2) e := by
  rw [round, if_neg hn, he]
  dsimp only
  rcases scale n d e with ⟨a, b⟩
  simp only [Nat.pow_eq]

section

variable {m n d : Nat} {e : Int} {t : ℚ}

/-- Rounding where the last place of a number is that of the fraction. -/
theorem round_of_samePlace (hp : Proper m e) (hn : 0 < n) (hd : 0 < d) (ht : (n / d : ℚ) = t * 2 ^ e)
    (hr : Reach m e t) (hlast : lastPlace n d = e) (negative : Bool) : round negative n d = .finite negative m e := by
  have hdown := quartersDown_le m e
  have hlow := hr.low
  have hhigh := hr.high
  have hdivide : divideEven (scale n d e).1 (scale n d e).2 = m := by
    refine divideEven_scale hd ht (by linarith) (by linarith) (hr.ends.imp_right fun ⟨hl, hh⟩ => ?_)
    exact ⟨by linarith, by linarith⟩
  rw [round_of_lastPlace hn.ne' hlast, hdivide, if_neg hp.significand.ne, pack, if_neg (not_lt.2 hp.greatest)]

/-- Below the least full significand the numbers lie twice as close, and the fraction rounds up to it. -/
theorem round_of_nextPlace (hn : 0 < n) (hd : 0 < d) (ht : (n / d : ℚ) = 2 * t * 2 ^ (e - 1))
    (hlow : 4 * 2 ^ 52 - 1 ≤ 4 * t) (ht52 : t < 2 ^ 52) (hlast : lastPlace n d = e - 1) (he : e ≤ maxExponent)
    (negative : Bool) : round negative n d = .finite negative (2 ^ 52) e := by
  have hdivide : divideEven (scale n d (e - 1)).1 (scale n d (e - 1)).2 = 2 ^ 53 := by
    refine divideEven_scale hd ht ?_ ?_ (.inl (by norm_num))
    · push_cast
      linarith
    · push_cast
      linarith
  rw [round_of_lastPlace hn.ne' hlast, hdivide, if_pos rfl, sub_add_cancel, pack, if_neg (not_lt.2 he)]

/-- **Rounding** gives a number back for every fraction within its reach. -/
theorem round_eq (hp : Proper m e) (hn : 0 < n) (hd : 0 < d) (ht : (n / d : ℚ) = t * 2 ^ e) (hr : Reach m e t)
    (negative : Bool) : round negative n d = .finite negative m e := by
  obtain ⟨f, hf, hflow, hfhigh⟩ := lastPlace_eq hn hd
  have hpow : (0 : ℚ) < 2 ^ e := by positivity
  have hhigh := hr.high
  have hm : (m : ℚ) + 1 ≤ 2 ^ 53 := by exact_mod_cast hp.significand
  rw [ht] at hflow hfhigh
  have hfe : f ≤ e := exponent_unique hflow (mul_lt_mul_of_pos_right (by linarith) hpow)
  by_cases hplace : e ≤ f ∨ e = minExponent
  · have hlast : lastPlace n d = e := by
      have := hp.least
      rw [hf]
      omega
    exact round_of_samePlace hp hn hd ht hr hlast negative
  · rw [not_or, not_le] at hplace
    have hmin : minExponent < e := lt_of_le_of_ne hp.least (Ne.symm hplace.2)
    have hfull := hp.full.resolve_right hplace.2
    have ht52 : t < 2 ^ 52 := by
      by_contra hge
      exact absurd (exponent_unique (mul_le_mul_of_nonneg_right (not_lt.1 hge) hpow.le) hfhigh) (not_le.2 hplace.1)
    have hlow := hr.low
    -- the reach goes below the least full significand only from this significand
    obtain rfl : m = 2 ^ 52 := by
      have hdown := quartersDown_le m e
      have : (m : ℚ) < 2 ^ 52 + 1 := by linarith
      have : m < 2 ^ 52 + 1 := by exact_mod_cast this
      omega
    rw [quartersDown, if_pos ⟨rfl, hmin⟩] at hlow
    push_cast at hlow
    have htwice : (n / d : ℚ) = 2 * t * 2 ^ (e - 1) := by
      rw [ht, zpow_sub_one₀ two_ne_zero]
      field_simp
    have hlast : lastPlace n d = e - 1 := by
      have hef : e - 1 ≤ f := by
        rw [← ht, htwice] at hfhigh
        exact exponent_unique (mul_le_mul_of_nonneg_right (by linarith) (by positivity)) hfhigh
      have := hplace.1
      rw [hf]
      omega
    exact round_of_nextPlace hn hd htwice hlow ht52 hlast hp.greatest negative

end

end Binary64
end SchemaClosure
