import SchemaClosure.Proofs.Document.Keys
import SchemaClosure.Proofs.Yaml.Numbers

/-!
# Whole numbers and nans

A run of decimal digits below `2 ^ 53` is read as just the number that it denotes, however many zeros stand in front
(`Numeral.Digits.float?_eq`). No text with a digit in it is read as a nan (`Numeral.isDigit_of_nan`).
-/

namespace SchemaClosure

namespace Binary64

theorem quartersDown_pos (m : Nat) (e : Int) : (0 : ℚ) < quartersDown m e := by
  unfold quartersDown
  split <;> norm_num

/-- A number is within its own reach. -/
theorem reach_self (m : Nat) (e : Int) : Reach m e m := by
  have hpos := quartersDown_pos m e
  exact ⟨by linarith, by linarith, .inr ⟨by linarith, by linarith⟩⟩

/-- A whole number below `2 ^ 53` is shifted until its significand is full. -/
theorem exists_proper_whole {n : Nat} (hn : 0 < n) (hless : n < 2 ^ 53) :
    ∃ m e, Proper m e ∧ 0 < m ∧ (m : ℚ) * 2 ^ e = n := by
  have hlow : 2 ^ n.log2 ≤ n := Nat.log2_self_le hn.ne'
  have hhigh : n < 2 ^ (n.log2 + 1) := Nat.lt_log2_self
  obtain ⟨k, hk⟩ : ∃ k, n.log2 + k = 52 := by
    have : n.log2 < 53 := (Nat.log2_lt hn.ne').2 hless
    exact ⟨52 - n.log2, by omega⟩
  have hfull : 2 ^ 52 ≤ n * 2 ^ k := by
    calc 2 ^ 52 = 2 ^ n.log2 * 2 ^ k := by rw [← pow_add, hk]
      _ ≤ n * 2 ^ k := Nat.mul_le_mul_right _ hlow
  have hfits : n * 2 ^ k < 2 ^ 53 := by
    calc n * 2 ^ k < 2 ^ (n.log2 + 1) * 2 ^ k := Nat.mul_lt_mul_of_pos_right hhigh (by positivity)
      _ = 2 ^ 53 := by rw [← pow_add]; congr 1; omega
  have hleast : minExponent ≤ -(k : Int) := by unfold minExponent; omega
  have hgreatest : -(k : Int) ≤ maxExponent := by unfold maxExponent; omega
  refine ⟨n * 2 ^ k, -(k : Int), ⟨hfits, hleast, hgreatest, .inl hfull⟩, by positivity, ?_⟩
  rw [zpow_neg, zpow_natCast]
  push_cast
  field_simp

/-- **Whole numbers** below `2 ^ 53` are read as they are. -/
theorem ofDecimal_whole {n : Nat} (hless : n < 2 ^ 53) (negative : Bool) :
    ∃ m e, ofDecimal negative n 0 = .finite negative m e ∧ (m : ℚ) * 2 ^ e = n := by
  by_cases hzero : n = 0
  · exact ⟨0, minExponent, if_pos hzero, by rw [hzero, Nat.cast_zero, zero_mul]⟩
  · obtain ⟨m, e, hp, hm, hvalue⟩ := exists_proper_whole (Nat.pos_of_ne_zero hzero) hless
    have hreach : Reach m e ((Decimal.mk n 0).value / 2 ^ e) := by
      have hunit : (2 : ℚ) ^ e ≠ 0 := by positivity
      rw [Decimal.value, zpow_zero, mul_one, ← hvalue, mul_div_cancel_right₀ _ hunit]
      exact reach_self m e
    exact ⟨m, e, ofDecimal_eq hp hm hreach negative, hvalue⟩

theorem pack_ne_nan (negative : Bool) (m : Nat) (e : Int) : pack negative m e ≠ .nan := by
  unfold pack
  split <;> exact Binary64.noConfusion

theorem round_ne_nan (negative : Bool) (n d : Nat) : round negative n d ≠ .nan := by
  by_cases hn : n = 0
  · rw [round, if_pos hn]
    exact Binary64.noConfusion
  · rw [round_of_lastPlace hn rfl]
    split <;> exact pack_ne_nan _ _ _

theorem ofDecimal_ne_nan (negative : Bool) (digits : Nat) (e : Int) : ofDecimal negative digits e ≠ .nan := by
  unfold ofDecimal
  split
  · exact Binary64.noConfusion
  · split
    · exact Binary64.noConfusion
    · split
      · exact Binary64.noConfusion
      · split <;> exact round_ne_nan _ _ _

end Binary64

namespace Numeral

/-! ## Runs of digits -/

/-- A run of decimal digits, and the number that it denotes. -/
structure Digits (run : List Char) (n : Nat) : Prop where
  ne_nil : run ≠ []
  digits : ∀ c ∈ run, c.isDigit = true
  value : Nat.ofDigitChars 10 run 0 = n

theorem natOf?_digits {run : List Char} (h : ∀ c ∈ run, c.isDigit = true) (acc : Nat) :
    natOf? 10 acc run = some (Nat.ofDigitChars 10 run acc) := by
  induction run generalizing acc with
  | nil => rfl
  | cons c rest ih =>
    rw [List.forall_mem_cons] at h
    obtain ⟨d, hd, rfl⟩ := exists_digitChar h.1
    have hchar : ∀ d < 10, (Nat.digitChar d).toNat - '0'.toNat = d := by decide
    rw [natOf?, value?_digitChar d hd]
    dsimp only
    rw [if_pos hd, ih h.2, Nat.ofDigitChars_cons, hchar d hd, Nat.mul_comm]

namespace Digits

variable {run : List Char} {n : Nat}

theorem isDigit (h : Digits run n) : ∀ c ∈ run, Text.isDigit c = true := fun c hc => isDigit_of_isDigit (h.digits c hc)

theorem decimal?_eq (h : Digits run n) (negative : Bool) :
    decimal? negative run = some (Binary64.ofDecimal negative n 0) := by
  have htake : run.takeWhile Text.isDigit = run := List.takeWhile_eq_self_iff.2 h.isDigit
  have hdrop : run.dropWhile Text.isDigit = [] := List.dropWhile_eq_nil_iff.2 h.isDigit
  have hempty : run.isEmpty = false := List.isEmpty_eq_false_iff.2 h.ne_nil
  have hread := natOf?_digits h.digits 0
  rw [h.value] at hread
  simp only [decimal?, htake, hdrop, List.append_nil, hread, hempty, exponent?]
  rfl

theorem numeric (h : Digits run n) : Yaml.Numeric run := by
  refine ⟨fun c hc => Yaml.isNumeralChar_of_isDigit (h.digits c hc), ?_⟩
  obtain ⟨c, rest, rfl⟩ := List.exists_cons_of_ne_nil h.ne_nil
  exact ⟨c, rest, rfl, h.digits c List.mem_cons_self⟩

/-- **A run of digits** is read as the number that it denotes. -/
theorem float?_eq (h : Digits run n) (hless : n < 2 ^ 53) :
    ∃ m e, float? run = some (.finite false m e) ∧ (m : ℚ) * 2 ^ e = n := by
  obtain ⟨m, e, hfinite, hvalue⟩ := Binary64.ofDecimal_whole hless false
  exact ⟨m, e, by rw [h.numeric.float?_eq, h.decimal?_eq, hfinite], hvalue⟩

end Digits

/-! ## Nans -/

theorem decimal?_ne_nan (negative : Bool) (s : List Char) : decimal? negative s ≠ some .nan := by
  intro h
  simp only [decimal?, Option.bind_eq_bind, Option.bind_eq_some_iff] at h
  obtain ⟨-, -, e, -, digits, -, h⟩ := h
  exact Binary64.ofDecimal_ne_nan _ _ _ (Option.some.inj h)

/-- What is read as a nan is the word behind blanks and a sign. -/
theorem lower_of_nan {s : List Char} (h : float? s = some .nan) :
    ((cutSign (trim s)).2.map Char.toLower) = ['n', 'a', 'n'] := by
  unfold float? at h
  dsimp only at h
  split at h
  · cases h
  · cases h
  · rename_i heq
    rw [← String.toList_ofList (l := List.map _ _), heq]
    rfl
  · exact absurd h (decimal?_ne_nan _ _)

/-- No digit lies in a range that is apart from the decades of digits. -/
theorem isDigit_of_apart {low high : Nat} (hapart : ∀ t ∈ Text.Table.digit, high < t.1 ∨ t.2 < low) {c : Char}
    (hlow : low ≤ c.toNat) (hhigh : c.toNat ≤ high) : Text.isDigit c = false := by
  rw [Text.isDigit, Text.digitValue?, Option.isSome_map, Option.isSome_eq_false_iff, Option.isNone_iff_eq_none,
    List.find?_eq_none]
  intro t ht hin
  simp only [Bool.and_eq_true, decide_eq_true_eq] at hin
  have := hapart t ht
  omega

theorem isDigit_of_isBlank {c : Char} (h : Text.isBlank c = true) : Text.isDigit c = false := by
  have hapart : ∀ r ∈ Text.blankRanges, ∀ t ∈ Text.Table.digit, r.2 < t.1 ∨ t.2 < r.1 := by decide
  obtain ⟨r, hr, hin⟩ := List.any_eq_true.1 h
  simp only [Bool.and_eq_true, decide_eq_true_eq] at hin
  exact isDigit_of_apart (hapart r hr) hin.1 hin.2

theorem toLower_of_isDigit {c : Char} (h : Text.isDigit c = true) : c.toLower = c := by
  have hapart : ∀ t ∈ Text.Table.digit, 90 < t.1 ∨ t.2 < 65 := by decide
  have hcapital : ¬ (c.val ≥ 'A'.val ∧ c.val ≤ 'Z'.val) := by
    rintro ⟨hlow, hhigh⟩
    rw [isDigit_of_apart hapart hlow hhigh] at h
    cases h
  exact dif_neg hcapital

theorem mem_dropWhile {p : Char → Bool} {s : List Char} {c : Char} (hc : c ∈ s) (hp : p c = false) :
    c ∈ s.dropWhile p := by
  rw [← List.takeWhile_append_dropWhile (p := p) (l := s), List.mem_append] at hc
  rcases hc with hc | hc
  · rw [List.mem_takeWhile_imp hc] at hp
    cases hp
  · exact hc

/-- Digits are neither cut off as blanks nor as a sign. -/
theorem mem_cutSign_trim {s : List Char} {c : Char} (hc : c ∈ s) (hdigit : Text.isDigit c = true) :
    c ∈ (cutSign (trim s)).2 := by
  have hblank : Text.isNumeralBlank c = false := by
    by_contra hblank
    rw [Bool.not_eq_false, Text.isNumeralBlank, Bool.and_eq_true] at hblank
    rw [isDigit_of_isBlank hblank.1] at hdigit
    cases hdigit
  have htrim : c ∈ trim s := by
    rw [trim, List.mem_reverse]
    exact mem_dropWhile (List.mem_reverse.2 (mem_dropWhile hc hblank)) hblank
  unfold cutSign
  split
  · rename_i heq
    rw [heq, List.mem_cons] at htrim
    rcases htrim with rfl | htrim
    · exact absurd hdigit (by decide)
    · exact htrim
  · rename_i heq
    rw [heq, List.mem_cons] at htrim
    rcases htrim with rfl | htrim
    · exact absurd hdigit (by decide)
    · exact htrim
  · exact htrim

/-- **No text with a digit** is read as a nan. -/
theorem isDigit_of_nan {s : List Char} (h : float? s = some .nan) : ∀ c ∈ s, Text.isDigit c = false := by
  intro c hc
  by_contra hdigit
  rw [Bool.not_eq_false] at hdigit
  have hletter : c ∈ ['n', 'a', 'n'] := by
    rw [← lower_of_nan h, ← toLower_of_isDigit hdigit]
    exact List.mem_map_of_mem (mem_cutSign_trim hc hdigit)
  have hletters : (['n', 'a', 'n'].all fun x => !Text.isDigit x) = true := by decide +kernel
  have hnot := List.all_eq_true.1 hletters c hletter
  rw [hdigit] at hnot
  cases hnot

end Numeral

end SchemaClosure
