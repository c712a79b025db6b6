import SchemaClosure.Proofs.Json.Literal
import SchemaClosure.Proofs.Json.Tree
import SchemaClosure.Proofs.Yaml.Numbers

/-!
# Words that are read again

A scalar that is no text stands as a word in JSON text. Read as YAML the words of null, of truth values and of integers
are what they were, and so is the word of a decimal that has a point in it. A decimal that is written with an exponent
and no point, and the names of numbers that are not finite, are read as texts (`Scalar.reread`).
-/

namespace SchemaClosure

open Numeral (Pointed tail)
open Yaml (Numeric isWord signed)

/-- What is read where JSON text spells a scalar. -/
def Scalar.reread : Scalar → Scalar
  | .text s => .text (Text.units s)
  | .float x => if '.' ∈ (x.text Json.spelling).toList then .float x else .text (x.text Json.spelling)
  | .nan _ => .text (Binary64.nan.text Json.spelling)
  | s => s

/-- Whether a scalar is represented properly, which is a matter of decimal numbers only. -/
def Scalar.isProper : Scalar → Bool
  | .float x => x.isProper
  | _ => true

/-- The text of a finite number is a digit with an exponent, or a decimal with a point that is read as the number. -/
theorem Binary64.exists_text (negative : Bool) {m : Nat} {e : Int} (hp : Proper m e) :
    ∃ body, Binary64.text Json.spelling (.finite negative m e) = String.ofList (signed negative body) ∧
      ((∃ c k, c.isDigit = true ∧ body = c :: tail (some k)) ∨
        ∃ whole part k, Pointed body whole part k ∧ Numeral.decimal? false body = some (.finite false m e)) := by
  by_cases hm : m = 0
  · subst hm
    have hzero : e = minExponent := by
      rcases hp.full with h | h
      · exact absurd h (by decide)
      · exact h
    subst hzero
    exact ⟨['0', '.', '0'], rfl, .inr ⟨['0'], ['0'], none, ⟨rfl, by simp, by simp, by simp⟩, by decide⟩⟩
  · have hpos : 0 < m := Nat.pos_of_ne_zero hm
    refine ⟨(shortest m e).text Json.spelling.leastPoint Json.spelling.greatestPoint, ?_, ?_⟩
    · simp only [Binary64.text, if_neg hm]
      rfl
    · rcases (shortest m e).text_cases Json.spelling.leastPoint Json.spelling.greatestPoint with
        h | ⟨whole, part, k, digits, hpointed, hdigits, hvalue⟩
      · exact .inl h
      · refine .inr ⟨whole, part, k, hpointed, ?_⟩
        rw [hpointed.decimal?_eq hdigits, ofDecimal_eq hp hpos (hvalue ▸ shortest_reach hp hpos)]

namespace Json

theorem toString_int (n : Int) : toString n = String.ofList (signed (n < 0) (Nat.toDigits 10 n.natAbs)) := by
  rw [Int.toString_eq_repr]
  cases n with
  | ofNat n => rfl
  | negSucc n =>
    have hsign : decide (Int.negSucc n < 0) = true := decide_eq_true (Int.negSucc_lt_zero n)
    rw [← String.toList_inj, Int.repr, String.toList_append, Nat.repr_eq_ofList_toDigits, hsign]
    simp only [String.toList_ofList]
    rfl

/-- A word of an ordinary text. -/
theorem scalarValue_str {w : String} (h : Yaml.Tag.ofPlain w = .str) :
    Yaml.scalarValue none (Yaml.Tag.ofPlain w) w = .ok (.text w) := by
  rw [h]
  rfl

theorem word_int {n : Int} {w : String} (h : Numeral.text? n = some w) :
    isWord w.toList = true ∧ Yaml.scalarValue none (Yaml.Tag.ofPlain w) w = .ok (.int n) := by
  unfold Numeral.text? at h
  split at h
  · rename_i hlength
    cases h
    have hlength : (Nat.toDigits 10 n.natAbs).length ≤ Numeral.maxDecimalDigits := by
      simpa [Nat.toString_eq_repr, Nat.repr_eq_ofList_toDigits] using hlength
    have hnumeric := Numeric.of_toDigits n.natAbs
    rw [toString_int, String.toList_ofList]
    refine ⟨hnumeric.isWord _, ?_⟩
    have htag : Yaml.Tag.ofPlain (String.ofList (signed (n < 0) (Nat.toDigits 10 n.natAbs))) = .int := by
      rw [hnumeric.ofPlain_eq, Yaml.isFloat_digits, Yaml.isInt_digits]
      rfl
    rw [htag, Yaml.scalarValue, Yaml.intValue_signed hlength]
    by_cases hn : n < 0
    · simp only [hn, decide_true, if_true, Except.map]
      congr 2
      omega
    · simp only [hn, decide_false, Bool.false_eq_true, if_false, Except.map]
      congr 2
      omega
  · cases h

theorem word_finite (negative : Bool) {m : Nat} {e : Int} (hp : Binary64.Proper m e) {w : String}
    (h : Binary64.text spelling (.finite negative m e) = w) :
    isWord w.toList = true ∧ Yaml.scalarValue none (Yaml.Tag.ofPlain w) w =
      .ok (if '.' ∈ w.toList then .float (.finite negative m e) else .text w) := by
  subst h
  obtain ⟨body, htext, ⟨c, k, hc, rfl⟩ | ⟨whole, part, k, hpointed, hread⟩⟩ := Binary64.exists_text negative hp
  · have hnumeric := Numeric.of_exponent hc k
    have hpoint : '.' ∉ signed negative (c :: tail (some k)) := Numeric.no_point hc k negative
    rw [htext, String.toList_ofList, if_neg hpoint]
    exact ⟨hnumeric.isWord _, scalarValue_str (Yaml.ofPlain_exponent hc k negative)⟩
  · have hnumeric := Numeric.of_pointed hpointed
    have hpoint : '.' ∈ signed negative body := by
      rw [hpointed.text_eq]
      cases negative <;> simp [signed]
    rw [htext, String.toList_ofList, if_pos hpoint]
    refine ⟨hnumeric.isWord _, ?_⟩
    have htag : Yaml.Tag.ofPlain (String.ofList (signed negative body)) = .float := by
      rw [hnumeric.ofPlain_eq, Yaml.isFloat_pointed hpointed]
      rfl
    rw [htag, Yaml.scalarValue, Yaml.floatValue_signed hpointed hread]
    cases negative <;> rfl

/-- **A word** is read as what its scalar is read as. -/
theorem wordValue_word? {s : Scalar} {w : String} (h : word? s = .ok w) (hp : s.isProper = true) :
    isWord w.toList = true ∧ Yaml.scalarValue none (Yaml.Tag.ofPlain w) w = .ok s.reread := by
  have hname : ∀ {w : String}, isWord w.toList = true → Yaml.Tag.ofPlain w = .str →
      isWord w.toList = true ∧ Yaml.scalarValue none (Yaml.Tag.ofPlain w) w = .ok (.text w) :=
    fun hword htag => ⟨hword, scalarValue_str htag⟩
  cases s with
  | null =>
    cases h
    decide +kernel
  | bool b =>
    cases h
    cases b <;> decide +kernel
  | int n =>
    rw [word?] at h
    cases htext : Numeral.text? n with
    | none =>
      rw [htext] at h
      cases h
    | some text =>
      rw [htext] at h
      cases h
      exact word_int htext
  | nan origin =>
    cases h
    exact hname (by decide +kernel) (by decide +kernel)
  | float x =>
    cases h
    cases x with
    | nan => exact hname (by decide +kernel) (by decide +kernel)
    | infinite negative => cases negative <;> exact hname (by decide +kernel) (by decide +kernel)
    | finite negative m e => exact word_finite negative (@Binary64.proper_of_isProper negative m e hp) rfl
  | text s | bytes octets | date mark d | instant mark t => cases h

end Json

end SchemaClosure
