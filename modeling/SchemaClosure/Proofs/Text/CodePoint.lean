import SchemaClosure.Text.CodePoint

/-!
# Code points and the characters that hold them

A character holds one code point, and a code point is held by one character (`Text.ofCode_code`, `Text.code_ofCode`), so
that texts with the same code points are equal (`Text.codes_inj`). A text has octets iff none of its characters holds a
surrogate; ASCII never does (`Text.Ascii.isEncodable`).
-/

namespace SchemaClosure.Text

theorem ofCode_code (c : Char) : ofCode (code c) = c := by
  unfold code ofCode
  split
  · rename_i h
    rw [Bool.and_eq_true, decide_eq_true_eq] at h
    rw [if_pos h.1, Nat.sub_add_cancel h.2, Char.ofNat_toNat]
  · have hvalid : isSurrogateCode c.toNat = false := by
      have := c.valid
      unfold isSurrogateCode
      rw [Bool.eq_false_iff, Ne, Bool.and_eq_true, decide_eq_true_eq, decide_eq_true_eq]
      rcases this with h | h
      · intro hc
        exact absurd hc.1 (by simpa using h)
      · intro hc
        exact absurd hc.2 (by have := h.1; simp only [Char.toNat, UInt32.toNat] at *; omega)
    rw [hvalid, if_neg Bool.false_ne_true, Char.ofNat_toNat]

theorem toNat_eq_code {c : Char} (h : code c < 0xD800) : c.toNat = code c := by
  unfold code at h ⊢
  split
  · rename_i hc
    rw [if_pos hc] at h
    rw [Bool.and_eq_true, isSurrogateCode, Bool.and_eq_true, decide_eq_true_eq] at hc
    exact absurd hc.1.1 (Nat.not_le.2 h)
  · rfl

theorem code_ofCode {n : Nat} (h : isSurrogateCode n = true) : code (ofCode n) = n := by
  have hrange := h
  rw [isSurrogateCode, Bool.and_eq_true, decide_eq_true_eq, decide_eq_true_eq] at hrange
  have hnat : (Char.ofNat (n + surrogateOffset)).toNat = n + surrogateOffset := by
    have hvalid : (n + surrogateOffset).isValidChar := .inr (by rw [surrogateOffset]; omega)
    rw [Char.ofNat, dif_pos hvalid]
    rfl
  rw [ofCode, if_pos h, code, hnat, Nat.add_sub_cancel, h, if_pos]
  simp

theorem code_lt (c : Char) : code c < 0x110000 := by
  have : c.toNat < 0x110000 := by
    rcases c.valid with h | h
    · exact Nat.lt_of_lt_of_le h (by decide)
    · exact h.2
  unfold code
  split
  · exact Nat.lt_of_le_of_lt (Nat.sub_le _ _) this
  · exact this

theorem code_inj {c d : Char} : code c = code d ↔ c = d :=
  ⟨fun h => by rw [← ofCode_code c, h, ofCode_code], congrArg code⟩

theorem codes_inj {s t : String} : codes s = codes t ↔ s = t := by
  unfold codes
  rw [List.map_inj_right fun _ _ => code_inj.1, String.toList_inj]

/-! ## Octets -/

theorem isEncodable_append (s t : String) : isEncodable (s ++ t) = (isEncodable s && isEncodable t) := by
  rw [isEncodable, String.toList_append, List.all_append, isEncodable, isEncodable]

/-- The text holds characters of ASCII only. -/
def Ascii (s : String) : Prop := ∀ c ∈ s.toList, c.toNat < 0x80

theorem ascii_chars_iff {s : List Char} : (s.all fun c => c.toNat < 0x80) = true ↔ ∀ c ∈ s, c.toNat < 0x80 := by
  simp only [List.all_eq_true, decide_eq_true_eq]

instance (s : String) : Decidable (Ascii s) := decidable_of_iff _ (ascii_chars_iff (s := s.toList))

theorem ascii_ofList {s : List Char} : Ascii (String.ofList s) ↔ ∀ c ∈ s, c.toNat < 0x80 := by
  rw [Ascii, String.toList_ofList]

theorem ascii_append {s t : String} : Ascii (s ++ t) ↔ Ascii s ∧ Ascii t := by
  simp only [Ascii, String.toList_append, List.mem_append, or_imp, forall_and]

/-- No character of ASCII holds a surrogate. -/
theorem Ascii.isEncodable {s : String} (h : Ascii s) : isEncodable s = true := by
  rw [Text.isEncodable, List.all_eq_true]
  intro c hc
  have hlow := h c hc
  have hbelow : ¬ surrogateOffset ≤ c.toNat := by
    rw [surrogateOffset]
    omega
  have hsmall : ¬ 0xD800 ≤ c.toNat := by omega
  simp [isSurrogate, isSurrogateCode, code, hbelow, hsmall]

end SchemaClosure.Text
