import Mathlib.Tactic.Ring
import SchemaClosure.Number.Shortest
import SchemaClosure.Proofs.Number.Rounding

/-!
# Shortest decimals read back

The shortest decimal of a number lies within the reach of the number (`shortest_reach`), so it rounds to the
number again (`ofDecimal_eq`). The search on the grids is sure to hit: with 17 digits the grid is narrower than
the reach.
-/

namespace SchemaClosure

namespace Binary64

/-- The number that a decimal is. -/
def Decimal.value (r : Decimal) : ℚ := r.digits * 10 ^ r.exponent

/-! ## Grids -/

/-- A power of ten as a fraction of natural numbers. -/
theorem zpow_ten_mul (k : Int) : (10 : ℚ) ^ k * 10 ^ (-k).toNat = 10 ^ k.toNat := by
  rw [← zpow_natCast, ← zpow_natCast, ← zpow_add₀ (by norm_num)]
  congr 1
  omega

/-- Comparing a fraction with a decimal is comparing two natural numbers, both enlarged alike. -/
theorem enlarged {a b : Nat} (hb : 0 < b) (c : Nat) (k : Int) : ∃ s : ℚ, 0 < s ∧
    (a / b : ℚ) * s = (if k < 0 then a * Nat.pow 10 (-k).toNat else a : Nat) ∧
    (c * 10 ^ k : ℚ) * s = (if k < 0 then b * c else b * c * Nat.pow 10 k.toNat : Nat) := by
  have hb' : (b : ℚ) ≠ 0 := by positivity
  have hten := zpow_ten_mul k
  refine ⟨b * 10 ^ (-k).toNat, by positivity, ?_, ?_⟩
  · split
    · push_cast [Nat.pow_eq]
      field_simp
    · have : (-k).toNat = 0 := by omega
      rw [this]
      field_simp
  · rw [show (c * 10 ^ k * (b * 10 ^ (-k).toNat) : ℚ) = b * c * (10 ^ k * 10 ^ (-k).toNat) by ring, hten]
    split
    · have : k.toNat = 0 := by omega
      rw [this]
      push_cast
      ring
    · push_cast [Nat.pow_eq]
      ring

theorem belowDecimal_true_iff {a b c : Nat} (hb : 0 < b) {k : Int} :
    belowDecimal true a b c k = true ↔ (a / b : ℚ) ≤ c * 10 ^ k := by
  obtain ⟨s, hs, ha, hc⟩ := enlarged (a := a) hb c k
  rw [← mul_le_mul_iff_left₀ hs, ha, hc, Nat.cast_le, belowDecimal]
  by_cases hk : k < 0 <;> simp [hk]

theorem belowDecimal_false_iff {a b c : Nat} (hb : 0 < b) {k : Int} :
    belowDecimal false a b c k = true ↔ (a / b : ℚ) < c * 10 ^ k := by
  obtain ⟨s, hs, ha, hc⟩ := enlarged (a := a) hb c k
  rw [← mul_lt_mul_iff_left₀ hs, ha, hc, Nat.cast_lt, belowDecimal]
  by_cases hk : k < 0 <;> simp [hk]

/-- A number lies between two fractions, and not at their ends unless they belong to it. -/
structure Between (closed : Bool) (low high d : Nat) (q : ℚ) : Prop where
  above : (low / d : ℚ) ≤ q
  below : q ≤ high / d
  ends : closed = true ∨ (low / d : ℚ) < q ∧ q < high / d

theorem between_iff {closed : Bool} {low high d c : Nat} (hd : 0 < d) {k : Int} :
    (belowDecimal closed low d c k && !belowDecimal (!closed) high d c k) = true ↔
      Between closed low high d (c * 10 ^ k) := by
  rw [Bool.and_eq_true, Bool.not_eq_true']
  cases closed with
  | true =>
    rw [belowDecimal_true_iff hd, Bool.not_true, ← Bool.not_eq_true, belowDecimal_false_iff hd, not_lt]
    exact ⟨fun h => ⟨h.1, h.2, .inl rfl⟩, fun h => ⟨h.above, h.below⟩⟩
  | false =>
    rw [belowDecimal_false_iff hd, Bool.not_false, ← Bool.not_eq_true, belowDecimal_true_iff hd, not_le]
    exact ⟨fun h => ⟨h.1.le, h.2.le, .inr h⟩, fun h => h.ends.resolve_left Bool.false_ne_true⟩

/-- A hit on a grid lies between the ends. -/
theorem between_of_onGrid? {closed : Bool} {low n high d : Nat} (hd : 0 < d) {k : Int} {r : Decimal}
    (h : onGrid? closed low n high d k = some r) : Between closed low high d r.value := by
  have hinside : ∃ c, r = ⟨c, k⟩ ∧
      (belowDecimal closed low d c k && !belowDecimal (!closed) high d c k) = true := by
    unfold onGrid? at h
    dsimp only at h
    generalize (if k < 0 then n * Nat.pow 10 (-k).toNat / d else n / (d * Nat.pow 10 k.toNat)) = c at h
    split at h
    · rename_i hlower hupper
      have hboth : ∀ nearer : Bool, (belowDecimal closed low d (if nearer then c + 1 else c) k &&
          !belowDecimal (!closed) high d (if nearer then c + 1 else c) k) = true := by
        intro nearer
        cases nearer
        · exact hlower
        · exact hupper
      obtain rfl := Option.some.inj h
      exact ⟨_, rfl, hboth _⟩
    · rename_i hlower _
      obtain rfl := Option.some.inj h
      exact ⟨_, rfl, hlower⟩
    · rename_i _ hupper
      obtain rfl := Option.some.inj h
      exact ⟨_, rfl, hupper⟩
    · cases h
  obtain ⟨c, rfl, hbelow⟩ := hinside
  exact (between_iff hd).1 hbelow

/-- The decimal of a grid below a fraction. -/
theorem floor_bounds {n d : Nat} (hd : 0 < d) (k : Int) {c : Nat}
    (hc : c = if k < 0 then n * Nat.pow 10 (-k).toNat / d else n / (d * Nat.pow 10 k.toNat)) :
    (c * 10 ^ k : ℚ) ≤ n / d ∧ (n / d : ℚ) < (c + 1 : Nat) * 10 ^ k := by
  have hpos : 0 < d * Nat.pow 10 k.toNat := Nat.mul_pos hd (Nat.pow_pos (by decide))
  obtain ⟨s, hs, hn, hdecimal⟩ := enlarged (a := n) hd c k
  obtain ⟨s', hs', hn', hdecimal'⟩ := enlarged (a := n) hd (c + 1) k
  rw [← mul_le_mul_iff_left₀ hs, hn, hdecimal, ← mul_lt_mul_iff_left₀ hs', hn', hdecimal', Nat.cast_le, Nat.cast_lt]
  subst hc
  split
  · exact ⟨Nat.mul_div_le _ _, Nat.lt_mul_div_succ _ hd⟩
  · constructor
    · rw [mul_right_comm]
      exact Nat.mul_div_le _ _
    · rw [mul_right_comm]
      exact Nat.lt_mul_div_succ _ hpos

/-- A grid that is narrower than the distance of the ends has a hit. -/
theorem onGrid?_isSome {closed : Bool} {low n high d : Nat} (hd : 0 < d) (hlow : low < n) (hhigh : n < high)
    {k : Int} (hk : (10 : ℚ) ^ k < (high - low) / d) : (onGrid? closed low n high d k).isSome := by
  have hd' : (0 : ℚ) < d := by exact_mod_cast hd
  have hlow' : (low / d : ℚ) < n / d := by gcongr
  have hhigh' : (n / d : ℚ) < high / d := by gcongr
  rw [sub_div] at hk
  unfold onGrid?
  dsimp only
  generalize hc : (if k < 0 then n * Nat.pow 10 (-k).toNat / d else n / (d * Nat.pow 10 k.toNat)) = c
  obtain ⟨hbelow, habove⟩ := floor_bounds hd k hc.symm
  push_cast at habove
  split
  · rfl
  · rfl
  · rfl
  · rename_i hlower hupper
    rw [← Bool.not_eq_true, between_iff hd] at hlower hupper
    -- neither neighbour lies between the ends, so the ends lie between the neighbours
    have hlower : (c * 10 ^ k : ℚ) ≤ low / d := by
      by_contra hgt
      rw [not_le] at hgt
      exact hlower ⟨hgt.le, hbelow.trans hhigh'.le, .inr ⟨hgt, hbelow.trans_lt hhigh'⟩⟩
    have hupper : (high / d : ℚ) ≤ (c + 1) * 10 ^ k := by
      by_contra hlt
      rw [not_le] at hlt
      refine hupper ⟨?_, ?_, .inr ⟨?_, ?_⟩⟩ <;> push_cast <;> linarith
    linarith

/-! ## The search -/

/-- The search hits if some of its grids is narrow enough. -/
theorem between_firstGrid {closed : Bool} {low n high d : Nat} (hd : 0 < d) (hlow : low < n) (hhigh : n < high)
    {place : Int} {fuel count : Nat} (hfuel : 0 < fuel)
    (hplace : (10 : ℚ) ^ (place - (count + fuel : Nat) + 2) < (high - low) / d) :
    Between closed low high d (firstGrid closed low n high d place fuel count).value := by
  induction fuel generalizing count with
  | zero => cases hfuel
  | succ fuel ih =>
    rw [firstGrid]
    split
    · rename_i r hr
      exact between_of_onGrid? hd hr
    · rename_i hnone
      cases fuel with
      | zero =>
        -- the last grid is the narrowest one
        have hsome : (onGrid? closed low n high d (place - (count + (0 + 1) : Nat) + 2)).isSome :=
          onGrid?_isSome hd hlow hhigh hplace
        rw [show place - (count + (0 + 1) : Nat) + 2 = place - count + 1 by push_cast; ring, hnone] at hsome
        cases hsome
      | succ fuel =>
        refine ih (Nat.succ_pos fuel) ?_
        rwa [Nat.add_right_comm, Nat.add_assoc]

/-- Trailing zeros do not count. -/
theorem value_trim (fuel : Nat) (r : Decimal) : (r.trim fuel).value = r.value := by
  induction fuel generalizing r with
  | zero => rfl
  | succ fuel ih =>
    rw [Decimal.trim]
    split
    · rename_i h
      rw [Bool.and_eq_true, decide_eq_true_eq] at h
      rw [ih, Decimal.value, Decimal.value]
      obtain ⟨q, hq⟩ := Nat.dvd_of_mod_eq_zero h.1
      have hdiv : r.digits / 10 = q := by omega
      dsimp only
      rw [hdiv, hq, zpow_add_one₀ (by norm_num)]
      push_cast
      ring
    · rfl

/-! ## The first place -/

/-- The binary logarithm gives the decimal one up to one, in the range of the numbers. -/
theorem ten_zpow_le_two_zpow {l : Int} (hl : l ≤ 60000) : (10 : ℚ) ^ (l * 30103 / 100000 - 1) ≤ 2 ^ (l - 1) := by
  have hless : (10 : ℚ) ^ 30102 ≤ 2 ^ 100000 := by
    have : 10 ^ 30102 ≤ 2 ^ 100000 := by decide +kernel
    exact_mod_cast this
  have hmore : (2 : ℚ) ^ 100000 ≤ 10 ^ 30103 := by
    have : 2 ^ 100000 ≤ 10 ^ 30103 := by decide +kernel
    exact_mod_cast this
  have hdiv : l * 30103 / 100000 * 100000 ≤ l * 30103 := Int.ediv_mul_le _ (by decide)
  generalize l * 30103 / 100000 = g at hdiv ⊢
  have hpow : ∀ a : ℚ, ∀ k : Int, (a ^ k) ^ 100000 = (a ^ 100000) ^ k := by
    intro a k
    rw [← zpow_natCast, ← zpow_natCast, ← zpow_mul, ← zpow_mul, mul_comm]
  rw [← pow_le_pow_iff_left₀ (by positivity) (by positivity) (show 100000 ≠ 0 by decide), hpow 2]
  have hten : ∀ k : Int, ∀ j : Nat, (g - 1) * 100000 ≤ j * k → ((10 : ℚ) ^ (g - 1)) ^ 100000 ≤ (10 ^ j) ^ k := by
    intro k j hj
    rw [← zpow_natCast, ← zpow_natCast, ← zpow_mul, ← zpow_mul]
    exact zpow_le_zpow_right₀ (by norm_num) hj
  rcases Int.le_total 1 l with hpos | hneg
  · refine (hten (l - 1) 30102 (by push_cast; omega)).trans ?_
    exact zpow_le_zpow_left₀ (by omega) (by positivity) hless
  · refine (hten (l - 1) 30103 (by push_cast; omega)).trans ?_
    obtain ⟨k, hk⟩ : ∃ k : Nat, l - 1 = -k := ⟨(1 - l).toNat, by omega⟩
    rw [hk, zpow_neg, zpow_neg, zpow_natCast, zpow_natCast]
    gcongr

/-- The place of the first digit is not too great. -/
theorem decimalPlace_le {n d : Nat} (hn : 0 < n) (hd : 0 < d) (hless : (n / d : ℚ) < 2 ^ (50000 : Int)) :
    (10 : ℚ) ^ decimalPlace n d ≤ n / d := by
  obtain ⟨hlow, -⟩ := log2_bounds hn hd
  have hl : (n.log2 : Int) - d.log2 ≤ 60000 := by
    have := (zpow_lt_zpow_iff_right₀ (one_lt_two : (1 : ℚ) < 2)).1 (hlow.trans_lt hless)
    omega
  have hd' : (0 : ℚ) < d := by exact_mod_cast hd
  have htest : ∀ g : Int, ∀ j : Nat, belowDecimal true (Nat.pow 10 g.toNat * j * d) (Nat.pow 10 (-g).toNat) n 0 = true →
      (10 : ℚ) ^ g * j ≤ n / d := by
    intro g j h
    have hpos : 0 < Nat.pow 10 (-g).toNat := Nat.pow_pos (by decide)
    rw [belowDecimal_true_iff hpos, zpow_zero, mul_one] at h
    rw [le_div_iff₀ hd']
    refine le_trans (le_of_eq ?_) h
    have hten := zpow_ten_mul g
    push_cast [Nat.pow_eq]
    rw [← hten]
    field_simp
  have hestimate := (ten_zpow_le_two_zpow hl).trans hlow
  unfold decimalPlace
  dsimp only
  generalize ((n.log2 : Int) - d.log2) * 30103 / 100000 = g at *
  split
  · rename_i h
    have := htest g 10 h
    rwa [zpow_add_one₀ (by norm_num)]
  · split
    · rename_i h
      have := htest g 1 (by rwa [mul_one])
      rwa [Nat.cast_one, mul_one] at this
    · exact hestimate

/-! ## The shortest decimal -/

/-- A quarter of the unit of an exponent as a fraction. -/
theorem quarter_eq (e : Int) : ∃ up d : Nat, 0 < up ∧ 0 < d ∧ (up / d : ℚ) = 2 ^ e / 4 ∧
    (if e - 2 < 0 then (1, Nat.pow 2 (2 - e).toNat) else (Nat.pow 2 (e - 2).toNat, 1)) = (up, d) := by
  have hfour : (2 : ℚ) ^ e / 4 = 2 ^ (e - 2) := by
    rw [zpow_sub₀ two_ne_zero]
    norm_num
  rw [hfour]
  split
  · obtain ⟨k, hk⟩ : ∃ k : Nat, e - 2 = -k := ⟨(2 - e).toNat, by omega⟩
    refine ⟨1, _, Nat.one_pos, Nat.pow_pos (by decide), ?_, rfl⟩
    have : (2 - e).toNat = k := by omega
    rw [hk, this, zpow_neg, zpow_natCast]
    push_cast [Nat.pow_eq]
    rw [one_div]
  · obtain ⟨k, hk⟩ : ∃ k : Nat, e - 2 = k := ⟨(e - 2).toNat, by omega⟩
    refine ⟨_, 1, Nat.pow_pos (by decide), Nat.one_pos, ?_, rfl⟩
    rw [hk, Int.toNat_natCast, zpow_natCast]
    push_cast [Nat.pow_eq]
    rw [div_one]

/-- The reach of a number is wider than the grid of the seventeenth digit. -/
theorem ulp_lt {m : Nat} {e : Int} (hp : Proper m e) : (m : ℚ) / 10 ^ 16 < (2 + quartersDown m e) / 4 := by
  unfold quartersDown
  have hm : (m : ℚ) < 2 ^ 53 := by exact_mod_cast hp.significand
  rw [div_lt_iff₀ (by positivity)]
  split
  · rename_i h
    rw [h.1]
    norm_num
  · norm_num at hm ⊢
    linarith

section

variable {m : Nat} {e : Int} {up d : Nat}

theorem cast_low (hm : 0 < m) : ((4 * m - quartersDown m e : Nat) : ℚ) = 4 * m - quartersDown m e := by
  have hless : quartersDown m e ≤ 2 := by
    unfold quartersDown
    split <;> decide
  rw [Nat.cast_sub (by omega)]
  push_cast
  ring

/-- A fraction of quarters of a unit. -/
theorem quarters_eq (hquarter : (up / d : ℚ) = 2 ^ e / 4) (x : Nat) : ((x * up : Nat) / d : ℚ) = x / 4 * 2 ^ e := by
  rw [Nat.cast_mul, mul_div_assoc, hquarter]
  ring

/-- The place of the first digit of a number is not too great. -/
theorem decimalPlace_le_value (hp : Proper m e) (hm : 0 < m) (hup : 0 < up) (hd : 0 < d)
    (hquarter : (up / d : ℚ) = 2 ^ e / 4) : (10 : ℚ) ^ decimalPlace (4 * m * up) d ≤ m * 2 ^ e := by
  have hvalue : ((4 * m * up : Nat) / d : ℚ) = m * 2 ^ e := by
    rw [quarters_eq hquarter]
    push_cast
    ring
  rw [← hvalue]
  refine decimalPlace_le (by positivity) hd ?_
  have hm' : (m : ℚ) < 2 ^ (53 : Int) := by exact_mod_cast hp.significand
  have hgreatest : 53 + e ≤ 50000 := by
    have := hp.greatest
    unfold maxExponent at this
    omega
  calc ((4 * m * up : Nat) / d : ℚ) = m * 2 ^ e := hvalue
    _ < 2 ^ (53 : Int) * 2 ^ e := by gcongr
    _ = 2 ^ (53 + e) := (zpow_add₀ two_ne_zero _ _).symm
    _ ≤ 2 ^ (50000 : Int) := zpow_le_zpow_right₀ one_le_two hgreatest

/-- The grid of the seventeenth digit is narrower than the reach. -/
theorem grid_lt (hp : Proper m e) (hm : 0 < m) (hup : 0 < up) (hd : 0 < d) (hquarter : (up / d : ℚ) = 2 ^ e / 4) :
    (10 : ℚ) ^ (decimalPlace (4 * m * up) d - (1 + 17 : Nat) + 2) <
      (((4 * m + 2) * up : Nat) - ((4 * m - quartersDown m e) * up : Nat)) / d := by
  have hunit : (0 : ℚ) < 2 ^ e := by positivity
  have hplace := decimalPlace_le_value hp hm hup hd hquarter
  have hexponent : decimalPlace (4 * m * up) d - (1 + 17 : Nat) + 2 = decimalPlace (4 * m * up) d - 16 := by
    push_cast
    ring
  rw [sub_div, quarters_eq hquarter, quarters_eq hquarter, cast_low hm, hexponent, zpow_sub₀ (by norm_num)]
  calc (10 : ℚ) ^ decimalPlace (4 * m * up) d / 10 ^ (16 : Int)
      ≤ m * 2 ^ e / 10 ^ (16 : Int) := by gcongr
    _ = m / 10 ^ 16 * 2 ^ e := by
        norm_cast
        ring
    _ < (2 + quartersDown m e) / 4 * 2 ^ e := mul_lt_mul_of_pos_right (ulp_lt hp) hunit
    _ = ((4 * m + 2 : Nat) : ℚ) / 4 * 2 ^ e - (4 * m - quartersDown m e) / 4 * 2 ^ e := by
        push_cast
        ring

/-- What lies between the ends of the search is within the reach of the number. -/
theorem reach_of_between (hm : 0 < m) (hquarter : (up / d : ℚ) = 2 ^ e / 4) {q : ℚ}
    (h : Between (m % 2 == 0) ((4 * m - quartersDown m e) * up) ((4 * m + 2) * up) d q) : Reach m e (q / 2 ^ e) := by
  have hunit : (0 : ℚ) < 2 ^ e := by positivity
  obtain ⟨habove, hbelow, hends⟩ := h
  rw [quarters_eq hquarter, cast_low hm, ← le_div_iff₀ hunit] at habove
  rw [quarters_eq hquarter, ← div_le_iff₀ hunit] at hbelow
  rw [quarters_eq hquarter, quarters_eq hquarter, cast_low hm, ← lt_div_iff₀ hunit, ← div_lt_iff₀ hunit] at hends
  push_cast at hbelow hends
  refine ⟨by linarith, by linarith, hends.imp beq_iff_eq.1 fun ⟨hlow, hhigh⟩ => ⟨?_, ?_⟩⟩
  · linarith
  · linarith

end

/-- **The shortest decimal** of a number is within its reach. -/
theorem shortest_reach {m : Nat} {e : Int} (hp : Proper m e) (hm : 0 < m) :
    Reach m e ((shortest m e).value / 2 ^ e) := by
  obtain ⟨up, d, hup, hd, hquarter, hpair⟩ := quarter_eq e
  have hdown : (if m = Nat.pow 2 52 && minExponent < e then 1 else 2) = quartersDown m e := by
    simp [quartersDown]
  have hpositive : 0 < quartersDown m e := by
    unfold quartersDown
    split <;> decide
  have hlow : (4 * m - quartersDown m e) * up < 4 * m * up := Nat.mul_lt_mul_of_pos_right (by omega) hup
  have hhigh : 4 * m * up < (4 * m + 2) * up := Nat.mul_lt_mul_of_pos_right (by omega) hup
  refine reach_of_between hm hquarter ?_
  rw [shortest]
  dsimp only
  rw [hdown, hpair]
  dsimp only
  rw [value_trim]
  exact between_firstGrid hd hlow hhigh (by decide) (grid_lt hp hm hup hd hquarter)

/-! ## Reading back -/

/-- What is within the reach of a number is neither far above nor far below all numbers. -/
theorem Reach.bounds {m : Nat} {e : Int} (hp : Proper m e) (hm : 0 < m) {q : ℚ} (h : Reach m e (q / 2 ^ e)) :
    (2 : ℚ) ^ (-1076 : Int) ≤ q ∧ q < 2 ^ (1026 : Int) := by
  have hunit : (0 : ℚ) < 2 ^ e := by positivity
  have hdown := quartersDown_le m e
  have hone : (1 : ℚ) ≤ m := by exact_mod_cast hm
  have hm' : (m : ℚ) + 1 ≤ 2 ^ (53 : Int) := by exact_mod_cast hp.significand
  have hlow := h.low
  have hhigh := h.high
  have hleast := hp.least
  have hgreatest := hp.greatest
  unfold minExponent at hleast
  unfold maxExponent at hgreatest
  constructor
  · calc (2 : ℚ) ^ (-1076 : Int) ≤ 2 ^ (e - 1) := zpow_le_zpow_right₀ one_le_two (by omega)
      _ = 1 / 2 * 2 ^ e := by rw [zpow_sub_one₀ two_ne_zero]; ring
      _ ≤ q / 2 ^ e * 2 ^ e := mul_le_mul_of_nonneg_right (by linarith) hunit.le
      _ = q := div_mul_cancel₀ _ hunit.ne'
  · calc q = q / 2 ^ e * 2 ^ e := (div_mul_cancel₀ _ hunit.ne').symm
      _ < 2 ^ (53 : Int) * 2 ^ e := mul_lt_mul_of_pos_right (by linarith) hunit
      _ = 2 ^ (53 + e) := (zpow_add₀ two_ne_zero _ _).symm
      _ ≤ 2 ^ (1026 : Int) := zpow_le_zpow_right₀ one_le_two (by omega)

/-- A power of ten that is taken for infinite is. -/
theorem two_zpow_le_ten_zpow {k : Int} (hk : 400 < k) : (2 : ℚ) ^ (1026 : Int) ≤ 10 ^ k := by
  have hless : 2 ^ 1026 ≤ 10 ^ 400 := by decide +kernel
  have hless : (2 : ℚ) ^ (1026 : Int) ≤ 10 ^ (400 : Int) := by exact_mod_cast hless
  exact hless.trans (zpow_le_zpow_right₀ (by norm_num) hk.le)

/-- A decimal that is taken for zero is less than all numbers. -/
theorem value_lt {digits : Nat} {k : Int} (hk : k < -((digits.log2 / 3 : Nat) : Int) - 400) :
    (Decimal.mk digits k).value < 2 ^ (-1076 : Int) := by
  have hmore : 2 ^ 1076 ≤ 10 ^ 400 := by decide +kernel
  have hmore : (10 : ℚ) ^ (-400 : Int) ≤ 2 ^ (-1076 : Int) := by
    rw [zpow_neg, zpow_neg]
    refine inv_anti₀ (by positivity) ?_
    exact_mod_cast hmore
  have hlog : digits < 10 ^ (digits.log2 / 3 + 1) := by
    calc digits < 2 ^ (digits.log2 + 1) := Nat.lt_log2_self
      _ ≤ 2 ^ (3 * (digits.log2 / 3 + 1)) := Nat.pow_le_pow_right (by decide) (by omega)
      _ = 8 ^ (digits.log2 / 3 + 1) := by rw [Nat.pow_mul]
      _ ≤ 10 ^ (digits.log2 / 3 + 1) := Nat.pow_le_pow_left (by decide) _
  generalize digits.log2 / 3 = j at hk hlog
  have hlog : (digits : ℚ) < 10 ^ ((j + 1 : Nat) : Int) := by exact_mod_cast hlog
  calc (Decimal.mk digits k).value < 10 ^ ((j + 1 : Nat) : Int) * 10 ^ k := by
        unfold Decimal.value
        gcongr
    _ = 10 ^ (((j + 1 : Nat) : Int) + k) := (zpow_add₀ (by norm_num) _ _).symm
    _ ≤ 10 ^ (-400 : Int) := zpow_le_zpow_right₀ (by norm_num) (by push_cast; omega)
    _ ≤ 2 ^ (-1076 : Int) := hmore

/-- **A decimal within the reach** of a number reads back as the number. -/
theorem ofDecimal_eq {m : Nat} {e : Int} (hp : Proper m e) (hm : 0 < m) {digits : Nat} {k : Int}
    (h : Reach m e ((Decimal.mk digits k).value / 2 ^ e)) (negative : Bool) :
    ofDecimal negative digits k = .finite negative m e := by
  obtain ⟨hleast, hgreatest⟩ := h.bounds hp hm
  have hpositive : (0 : ℚ) < 2 ^ (-1076 : Int) := by positivity
  have hdigits : digits ≠ 0 := by
    rintro rfl
    rw [Decimal.value, Nat.cast_zero, zero_mul] at hleast
    exact absurd hleast (not_le.2 hpositive)
  have hunit : (2 : ℚ) ^ e ≠ 0 := by positivity
  have hround : ∀ {n d : Nat}, 0 < n → 0 < d → (n / d : ℚ) = (Decimal.mk digits k).value →
      round negative n d = .finite negative m e := by
    intro n d hn hd hvalue
    exact round_eq hp hn hd (by rw [hvalue, div_mul_cancel₀ _ hunit]) h negative
  unfold ofDecimal
  rw [if_neg hdigits, if_neg, if_neg]
  · split
    · refine hround (Nat.pos_of_ne_zero hdigits) (Nat.pow_pos (by decide)) ?_
      obtain ⟨j, rfl⟩ : ∃ j : Nat, k = -j := ⟨(-k).toNat, by omega⟩
      rw [neg_neg, Int.toNat_natCast, Decimal.value, zpow_neg, zpow_natCast]
      push_cast [Nat.pow_eq]
      rw [div_eq_mul_inv]
    · refine hround (Nat.mul_pos (Nat.pos_of_ne_zero hdigits) (Nat.pow_pos (by decide))) Nat.one_pos ?_
      obtain ⟨j, rfl⟩ : ∃ j : Nat, k = j := ⟨k.toNat, by omega⟩
      rw [Int.toNat_natCast, Decimal.value, zpow_natCast]
      push_cast [Nat.pow_eq]
      rw [div_one]
  · intro hk
    exact absurd (value_lt hk) (not_lt.2 hleast)
  · intro hk
    refine absurd hgreatest (not_lt.2 ((two_zpow_le_ten_zpow hk).trans ?_))
    rw [Decimal.value]
    refine le_mul_of_one_le_left (by positivity) ?_
    exact_mod_cast Nat.one_le_iff_ne_zero.2 hdigits

end Binary64

end SchemaClosure
