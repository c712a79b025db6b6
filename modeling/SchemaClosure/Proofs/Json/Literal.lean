import SchemaClosure.Json.Text
import SchemaClosure.Proofs.Text.CodePoint
import SchemaClosure.Yaml.Token.Scalar

/-!
# String literals

A literal spells the UTF-16 code units of its text (`Text.units`), so that a character beyond the basic plane and the
two surrogates that it is made of have one literal (`Json.literal_units`). A character of the basic plane stands as it
is, as a letter behind a backslash, or by its code, always in characters of ASCII that show.
-/

namespace SchemaClosure

namespace Text

/-- A character by its UTF-16 code units: beyond the basic plane there are two, both of them surrogates. -/
def unitsOf (c : Char) : List Char :=
  if code c < 0x10000 then [c]
  else [ofCode (0xD800 + (code c - 0x10000) / 0x400), ofCode (0xDC00 + (code c - 0x10000) % 0x400)]

/-- The text where every character stands by its UTF-16 code units. -/
def units (s : String) : String := String.ofList (s.toList.flatMap unitsOf)

/-- Beyond the basic plane both code units are surrogates. -/
theorem isSurrogateCode_units {n : Nat} (h : n < 0x110000) :
    isSurrogateCode (0xD800 + (n - 0x10000) / 0x400) = true ∧
      isSurrogateCode (0xDC00 + (n - 0x10000) % 0x400) = true := by
  simp only [isSurrogateCode, Bool.and_eq_true, decide_eq_true_eq]
  omega

theorem lt_of_isSurrogateCode {n : Nat} (h : isSurrogateCode n = true) : 0xD800 ≤ n ∧ n < 0x10000 := by
  simp only [isSurrogateCode, Bool.and_eq_true, decide_eq_true_eq] at h
  omega

theorem basic_of_mem_unitsOf {c x : Char} (h : x ∈ unitsOf c) : code x < 0x10000 := by
  unfold unitsOf at h
  split at h
  · rwa [List.mem_singleton.1 h]
  · obtain ⟨hhigh, hlow⟩ := isSurrogateCode_units (code_lt c)
    rw [List.mem_cons, List.mem_singleton] at h
    rcases h with h | h
    · rw [h, code_ofCode hhigh]
      exact (lt_of_isSurrogateCode hhigh).2
    · rw [h, code_ofCode hlow]
      exact (lt_of_isSurrogateCode hlow).2

theorem basic_of_mem_units {s : String} {x : Char} (h : x ∈ (units s).toList) : code x < 0x10000 := by
  rw [units, String.toList_ofList, List.mem_flatMap] at h
  obtain ⟨c, -, hx⟩ := h
  exact basic_of_mem_unitsOf hx

/-- A text of the basic plane is its code units. -/
theorem units_eq {s : String} (h : ∀ x ∈ s.toList, code x < 0x10000) : units s = s := by
  have hunits : ∀ {chars : List Char}, (∀ x ∈ chars, code x < 0x10000) → chars.flatMap unitsOf = chars := by
    intro chars hchars
    induction chars with
    | nil => rfl
    | cons c rest ih =>
      rw [List.flatMap_cons, ih fun x hx => hchars x (List.mem_cons_of_mem c hx), unitsOf,
        if_pos (hchars c List.mem_cons_self)]
      rfl
  rw [units, hunits h, String.ofList_toList]

end Text

namespace Json

/-- A character of ASCII that shows, or a space. -/
def isShown (c : Char) : Bool := 0x20 ≤ c.toNat && c.toNat ≤ 0x7E

/-- How a character of the basic plane stands in a literal: as it is, behind a backslash as a letter that
stands for it, or by its code. -/
theorem literalChar_cases {x : Char} (hx : Text.code x < 0x10000) :
    (literalChar x = [x] ∧ x ≠ '"' ∧ x ≠ '\\' ∧ isShown x = true) ∨
      (∃ e, literalChar x = ['\\', e] ∧ Yaml.Quoted.escape? e = some x ∧ isShown e = true) ∨
      ∃ n < 0x10000, literalChar x = unitEscape n ∧ Text.ofCode n = x := by
  unfold literalChar
  dsimp only
  split
  · rename_i h
    rw [Bool.or_eq_true, decide_eq_true_eq, decide_eq_true_eq] at h
    obtain rfl | rfl := h
    · exact .inr (.inl ⟨_, rfl, rfl, rfl⟩)
    · exact .inr (.inl ⟨_, rfl, rfl, rfl⟩)
  rename_i hquote
  rw [Bool.or_eq_true, decide_eq_true_eq, decide_eq_true_eq, not_or] at hquote
  split
  · rename_i h
    exact .inr (.inl ⟨_, rfl, h ▸ rfl, rfl⟩)
  split
  · rename_i h
    exact .inr (.inl ⟨_, rfl, h ▸ rfl, rfl⟩)
  split
  · rename_i h
    exact .inr (.inl ⟨_, rfl, h ▸ rfl, rfl⟩)
  rename_i hnewline hreturn htab
  split
  · rename_i h
    exact .inr (.inl ⟨_, rfl, by rw [← Text.ofCode_code x, h]; rfl, rfl⟩)
  split
  · rename_i h
    exact .inr (.inl ⟨_, rfl, by rw [← Text.ofCode_code x, h]; rfl, rfl⟩)
  split
  · rename_i h
    rw [Bool.and_eq_true, decide_eq_true_eq, decide_eq_true_eq] at h
    refine .inl ⟨rfl, hquote.1, hquote.2, ?_⟩
    have hcode : x.toNat = Text.code x := Text.toNat_eq_code (by omega)
    rw [isShown, hcode, Bool.and_eq_true, decide_eq_true_eq, decide_eq_true_eq]
    exact h
  · exact .inr (.inr ⟨_, hx, rfl, Text.ofCode_code x⟩)

/-- A character beyond ASCII stands by its code units. -/
theorem literalChar_of_lt {c : Char} (h : 0x7E < Text.code c) : literalChar c =
    if Text.code c < 0x10000 then unitEscape (Text.code c)
    else unitEscape (0xD800 + (Text.code c - 0x10000) / 0x400) ++
      unitEscape (0xDC00 + (Text.code c - 0x10000) % 0x400) := by
  have hne : ∀ x : Char, Text.code x ≤ 0x7E → c ≠ x := by
    rintro x hx rfl
    omega
  unfold literalChar
  generalize hn : Text.code c = n at *
  have h8 : n ≠ 8 := by omega
  have h12 : n ≠ 12 := by omega
  have hplain : ¬n ≤ 0x7E := by omega
  simp [hne '"' (by decide), hne '\\' (by decide), hne '\n' (by decide), hne '\r' (by decide), hne '\t' (by decide), h8,
    h12, hplain]

theorem literalChar_ofCode {n : Nat} (h : Text.isSurrogateCode n = true) :
    literalChar (Text.ofCode n) = unitEscape n := by
  obtain ⟨hlow, hhigh⟩ := Text.lt_of_isSurrogateCode h
  rw [literalChar_of_lt, Text.code_ofCode h, if_pos hhigh]
  rw [Text.code_ofCode h]
  omega

/-- A literal spells code units. -/
theorem literal_units (s : String) : literal (Text.units s) = literal s := by
  have hchar : ∀ c : Char, (Text.unitsOf c).flatMap literalChar = literalChar c := by
    intro c
    by_cases hc : Text.code c < 0x10000
    · rw [Text.unitsOf, if_pos hc, List.flatMap_singleton]
    · obtain ⟨hhigh, hlow⟩ := Text.isSurrogateCode_units (Text.code_lt c)
      rw [Text.unitsOf, if_neg hc, literalChar_of_lt (by omega), if_neg hc]
      simp only [List.flatMap_cons, List.flatMap_nil, List.append_nil, literalChar_ofCode hhigh,
        literalChar_ofCode hlow]
  rw [literal, literal, Text.units, String.toList_ofList, List.flatMap_assoc]
  simp only [hchar]

theorem digit_of_mem_toDigits {n : Nat} {x : Char} (h : x ∈ Nat.toDigits 16 n) : ∃ d < 16, x = Nat.digitChar d := by
  induction n using Nat.strongRecOn with
  | _ n ih =>
    rw [Nat.toDigits_eq_if (by decide)] at h
    split at h
    · rename_i hn
      exact ⟨n, hn, List.mem_singleton.1 h⟩
    · rename_i hn
      rcases List.mem_append.1 h with h | h
      · exact ih (n / 16) (by omega) h
      · exact ⟨n % 16, Nat.mod_lt n (by decide), List.mem_singleton.1 h⟩

theorem isShown_of_mem_toDigits {n : Nat} {x : Char} (h : x ∈ Nat.toDigits 16 n) : isShown x = true := by
  have hdigit : ∀ d < 16, isShown (Nat.digitChar d) = true := by decide
  obtain ⟨d, hd, rfl⟩ := digit_of_mem_toDigits h
  exact hdigit d hd

/-- A literal consists of characters of ASCII that show. -/
theorem isShown_of_mem_literal {s : String} {x : Char} (h : x ∈ (literal s).toList) : isShown x = true := by
  rw [← literal_units, literal, String.toList_ofList, List.mem_append, List.mem_cons, List.mem_flatMap,
    List.mem_singleton] at h
  rcases h with (rfl | ⟨c, hc, hx⟩) | rfl
  · rfl
  · rcases literalChar_cases (Text.basic_of_mem_units hc) with
      ⟨hplain, -, -, hshown⟩ | ⟨e, hletter, -, hshown⟩ | ⟨n, -, hunit, -⟩
    · rw [hplain, List.mem_singleton] at hx
      rwa [hx]
    · rw [hletter, List.mem_cons, List.mem_singleton] at hx
      rcases hx with rfl | rfl
      · rfl
      · exact hshown
    · rw [hunit, unitEscape, List.mem_cons, List.mem_cons, Text.digits, List.mem_append] at hx
      rcases hx with rfl | rfl | hx | hx
      · rfl
      · rfl
      · rw [List.eq_of_mem_replicate hx]
        rfl
      · exact isShown_of_mem_toDigits hx
  · rfl

end Json

end SchemaClosure
