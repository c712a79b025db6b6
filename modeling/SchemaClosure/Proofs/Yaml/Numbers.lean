import SchemaClosure.Proofs.Number.Numeral
import SchemaClosure.Proofs.Yaml.Words
import SchemaClosure.Yaml.Scalar

/-!
# Numbers as plain scalars

A plain scalar with a digit in it is a number if it has the form of one (`Tag.ofPlain_of_digit`). The text of an integer
is one and is read back (`intValue_signed`), and so is the text of a decimal with a point (`floatValue_signed`). A digit
with an exponent and no point is an ordinary text (`ofPlain_exponent`).
-/

namespace SchemaClosure.Yaml

open Numeral (Pointed tail of_isDigit)

/-! ## Characters -/

/-- A character of the text of a number. -/
def isNumeralChar (c : Char) : Bool := c.isDigit || c = '.' || c = 'e' || c = '+' || c = '-'

theorem of_isNumeralChar {p : Char → Prop} (hdigits : ∀ d < 10, p (Nat.digitChar d)) (hpoint : p '.') (he : p 'e')
    (hplus : p '+') (hminus : p '-') {c : Char} (h : isNumeralChar c = true) : p c := by
  simp only [isNumeralChar, Bool.or_eq_true, decide_eq_true_eq] at h
  rcases h with (((h | rfl) | rfl) | rfl) | rfl
  · exact of_isDigit hdigits h
  · exact hpoint
  · exact he
  · exact hplus
  · exact hminus

theorem isNumeralChar_of_isDigit {c : Char} (h : c.isDigit = true) : isNumeralChar c = true := by
  rw [isNumeralChar, h]
  rfl

/-- What characters of numbers are and are not. -/
structure NumeralChar (c : Char) : Prop where
  word : isWordChar c = true
  ne_line : c ≠ '_'
  ne_colon : c ≠ ':'
  ne_break : c ≠ '\n'
  no_blank : Text.isNumeralBlank c = false
  ne_sigma : c ≠ 'Σ'
  small : Text.lowerChar c = [c]

theorem isNumeralChar_spec {c : Char} (h : isNumeralChar c = true) : NumeralChar c := by
  have hall : isWordChar c = true ∧ c ≠ '_' ∧ c ≠ ':' ∧ c ≠ '\n' ∧ Text.isNumeralBlank c = false ∧ c ≠ 'Σ' ∧
      Text.lowerChar c = [c] :=
    of_isNumeralChar (p := fun c => isWordChar c = true ∧ c ≠ '_' ∧ c ≠ ':' ∧ c ≠ '\n' ∧
      Text.isNumeralBlank c = false ∧ c ≠ 'Σ' ∧ Text.lowerChar c = [c])
      (by decide) (by decide) (by decide) (by decide) (by decide) h
  obtain ⟨hword, hline, hcolon, hbreak, hblank, hsigma, hsmall⟩ := hall
  exact ⟨hword, hline, hcolon, hbreak, hblank, hsigma, hsmall⟩

theorem isNumeralChar_of_mem_tail {e : Option Int} {c : Char} (h : c ∈ tail e) : isNumeralChar c = true := by
  cases e with
  | none => cases h
  | some e =>
    simp only [tail, List.mem_cons, Text.digits, List.mem_append] at h
    rcases h with rfl | h | h | h
    · rfl
    · split at h <;> rw [h] <;> rfl
    · rw [List.eq_of_mem_replicate h]
      rfl
    · exact isNumeralChar_of_isDigit (Numeral.isDigit_of_mem_toDigits h)

/-- A text of a number: characters of numbers, of which the first one is a digit. -/
structure Numeric (body : List Char) : Prop where
  chars : ∀ c ∈ body, isNumeralChar c = true
  head : ∃ c rest, body = c :: rest ∧ c.isDigit = true

theorem Numeric.of_pointed {body whole part : List Char} {e : Option Int} (h : Pointed body whole part e) :
    Numeric body := by
  refine ⟨fun c hc => ?_, ?_⟩
  · rw [h.text_eq, List.mem_append, List.mem_cons, List.mem_append] at hc
    rcases hc with hc | rfl | hc | hc
    · exact isNumeralChar_of_isDigit (h.whole_digits c hc)
    · rfl
    · exact isNumeralChar_of_isDigit (h.part_digits c hc)
    · exact isNumeralChar_of_mem_tail hc
  · rw [h.text_eq]
    have hne := h.whole_ne
    have hdigits := h.whole_digits
    cases whole with
    | nil => exact absurd rfl hne
    | cons c rest => exact ⟨c, _, rfl, hdigits c List.mem_cons_self⟩

theorem Numeric.of_exponent {c : Char} (h : c.isDigit = true) (e : Int) : Numeric (c :: tail (some e)) := by
  refine ⟨fun x hx => ?_, c, _, rfl, h⟩
  rcases List.mem_cons.1 hx with rfl | hx
  · exact isNumeralChar_of_isDigit h
  · exact isNumeralChar_of_mem_tail hx

theorem Numeric.of_toDigits (n : Nat) : Numeric (Nat.toDigits 10 n) := by
  refine ⟨fun c hc => isNumeralChar_of_isDigit (Numeral.isDigit_of_mem_toDigits hc), ?_⟩
  have hdigit : ∀ c ∈ Nat.toDigits 10 n, c.isDigit = true := fun c => Numeral.isDigit_of_mem_toDigits
  cases hdigits : Nat.toDigits 10 n with
  | nil => exact absurd hdigits Nat.toDigits_ne_nil
  | cons c rest => exact ⟨c, rest, rfl, hdigit c (hdigits ▸ List.mem_cons_self)⟩

/-- A text behind a minus sign, or as it is. -/
def signed (negative : Bool) (body : List Char) : List Char := if negative then '-' :: body else body

theorem Numeric.cutSign {body : List Char} (h : Numeric body) (negative : Bool) :
    Numeral.cutSign (signed negative body) = (negative, body) := by
  cases negative with
  | true => rfl
  | false =>
    obtain ⟨c, rest, rfl, hc⟩ := h.head
    have hne : c ≠ '-' ∧ c ≠ '+' := of_isDigit (p := fun c => c ≠ '-' ∧ c ≠ '+') (by decide) hc
    simp [signed, Numeral.cutSign, hne.1, hne.2]

theorem Numeric.chars_signed {body : List Char} (h : Numeric body) {negative : Bool} {c : Char}
    (hc : c ∈ signed negative body) : isNumeralChar c = true := by
  cases negative with
  | false => exact h.chars c hc
  | true =>
    rcases List.mem_cons.1 hc with rfl | hc
    · rfl
    · exact h.chars c hc

/-- An exponent has no point in it. -/
theorem Numeric.no_point {c : Char} (hc : c.isDigit = true) (e : Int) (negative : Bool) :
    '.' ∉ signed negative (c :: tail (some e)) := by
  have hpoint : ∀ {x : Char}, x.isDigit = true → '.' ≠ x := fun hx => of_isDigit (p := fun x => '.' ≠ x) (by decide) hx
  have htail : '.' ∉ c :: tail (some e) := by
    simp only [tail, List.mem_cons, Text.digits, List.mem_append, not_or]
    refine ⟨hpoint hc, by decide, ?_, ?_, fun h => hpoint (Numeral.isDigit_of_mem_toDigits h) rfl⟩
    · split <;> decide
    · intro h
      cases List.eq_of_mem_replicate h
  cases negative with
  | false => exact htail
  | true => exact fun h => (List.mem_cons.1 h).elim (by decide) htail

theorem Numeric.exists_digit {body : List Char} (h : Numeric body) (negative : Bool) :
    ∃ c, c ∈ signed negative body ∧ c.isDigit = true := by
  obtain ⟨c, rest, rfl, hc⟩ := h.head
  exact ⟨c, by cases negative <;> simp [signed], hc⟩

theorem Numeric.no_break {body : List Char} (h : Numeric body) {negative : Bool} : '\n' ∉ signed negative body :=
  fun hc => (isNumeralChar_spec (h.chars_signed hc)).ne_break rfl

/-- The text of a number is a word. -/
theorem Numeric.isWord {body : List Char} (h : Numeric body) (negative : Bool) :
    isWord (signed negative body) = true := by
  have hall : (signed negative body).all isWordChar = true :=
    List.all_eq_true.2 fun c hc => (isNumeralChar_spec (h.chars_signed hc)).word
  have hdigit : ∀ {c : Char}, c.isDigit = true → c.isAlphanum = true := by
    intro c hc
    rw [Char.isAlphanum, hc, Bool.or_true]
  obtain ⟨c, rest, rfl, hc⟩ := h.head
  unfold Yaml.isWord
  rw [hall, Bool.true_and]
  cases negative with
  | true => exact hdigit hc
  | false =>
    have hne : c ≠ '-' := of_isDigit (p := fun c => c ≠ '-') (by decide) hc
    unfold signed
    rw [if_neg Bool.false_ne_true]
    split
    · rename_i heq
      exact absurd (List.cons.inj heq).1 hne
    · rename_i heq
      rw [← (List.cons.inj heq).1]
      exact hdigit hc
    · rename_i heq
      cases heq

/-! ## Tags -/

theorem dropBreak_eq {s : List Char} (h : '\n' ∉ s) : Form.dropBreak s = s := by
  unfold Form.dropBreak
  split
  · rename_i heq
    exact absurd (List.mem_reverse.1 (heq ▸ List.mem_cons_self)) h
  · rfl

/-- Words for null and for truth values have no digits. -/
theorem isWordOf_eq_false (words : List String)
    (hwords : ∀ w ∈ words, ∀ v ∈ [w, w.capitalize, w.toUpper], v.toList.all (!·.isDigit) = true) {s : String} {c : Char}
    (hc : c ∈ s.toList) (hdigit : c.isDigit = true) : Tag.isWordOf words s = false := by
  rw [Tag.isWordOf, List.any_eq_false]
  intro w hw
  have hne : ∀ v ∈ [w, w.capitalize, w.toUpper], s ≠ v := by
    rintro v hv rfl
    have := List.all_eq_true.1 (hwords w hw _ hv) c hc
    rw [hdigit] at this
    cases this
  simp [hne w (by simp), hne w.capitalize (by simp), hne w.toUpper (by simp)]

/-- A text with a digit is a number or a time if it has the form of one, and else an ordinary text. -/
theorem Tag.ofPlain_of_digit {w : String} {c : Char} (hc : c ∈ w.toList) (hdigit : c.isDigit = true)
    (hbreak : '\n' ∉ w.toList) :
    Tag.ofPlain w = if Form.isFloat w.toList then .float else if Form.isInt w.toList then .int
      else if Form.isTime w.toList then .timestamp else .str := by
  have hne : ∀ {v : String}, v.toList.all (!·.isDigit) = true → w ≠ v := by
    rintro v hv rfl
    have := List.all_eq_true.1 hv c hc
    rw [hdigit] at this
    cases this
  have hnull := isWordOf_eq_false ["null"] (by decide +kernel) hc hdigit
  have htruth := isWordOf_eq_false (truthWords.map (·.1)) (by decide +kernel) hc hdigit
  have hmarks : Form.marks.contains w = false := by
    simp [Form.marks, hne (v := "!") (by decide), hne (v := "&") (by decide), hne (v := "*") (by decide)]
  rw [Tag.ofPlain, dropBreak_eq hbreak]
  simp only [String.ofList_toList, hnull, htruth, hmarks, hne (v := "") (by decide), hne (v := "~") (by decide),
    hne (v := "<<") (by decide), hne (v := "=") (by decide), decide_false, Bool.or_false, Bool.false_eq_true, if_false]

theorem Numeric.ofPlain_eq {body : List Char} (h : Numeric body) (negative : Bool) :
    Tag.ofPlain (String.ofList (signed negative body)) =
      if Form.isFloat (signed negative body) then .float else if Form.isInt (signed negative body) then .int
      else if Form.isTime (signed negative body) then .timestamp else .str := by
  obtain ⟨c, hmem, hdigit⟩ := h.exists_digit negative
  have htag := Tag.ofPlain_of_digit (w := String.ofList (signed negative body)) (c := c)
  rw [String.toList_ofList] at htag
  exact htag hmem hdigit h.no_break

theorem dropWhile_digits {s : List Char} (h : ∀ c ∈ s, c.isDigit = true) (rest : List Char) :
    (s ++ rest).dropWhile Form.isDigitOrLine = rest.dropWhile Form.isDigitOrLine := by
  refine List.dropWhile_append_of_pos fun c hc => ?_
  rw [Form.isDigitOrLine, h c hc]
  rfl

theorem dropWhile_allDigits {s : List Char} (h : ∀ c ∈ s, c.isDigit = true) : s.dropWhile Form.isDigitOrLine = [] := by
  have hdrop := dropWhile_digits h []
  rwa [List.append_nil] at hdrop

theorem isExponent_tail (e : Option Int) : Form.isExponent ((tail e).dropWhile Form.isDigitOrLine) = true := by
  cases e with
  | none => rfl
  | some e =>
    have hdigits : Form.someOf Char.isDigit (Text.digits 10 2 e.natAbs) = true := by
      rw [Form.someOf, Bool.and_eq_true, List.all_eq_true]
      refine ⟨by simp [Text.digits, Nat.toDigits_ne_nil], fun c hc => ?_⟩
      rcases List.mem_append.1 hc with hc | hc
      · rw [List.eq_of_mem_replicate hc]
        rfl
      · exact Numeral.isDigit_of_mem_toDigits hc
    rw [tail, List.dropWhile_cons_of_neg (by decide), Form.isExponent, hdigits]
    split <;> rfl

/-- A decimal with a point has the form of one. -/
theorem isFloat_pointed {body whole part : List Char} {e : Option Int} (h : Pointed body whole part e)
    (negative : Bool) : Form.isFloat (signed negative body) = true := by
  have hcut := (Numeric.of_pointed h).cutSign negative
  obtain ⟨htext, hne, hwhole, hpart⟩ := h
  cases whole with
  | nil => exact absurd rfl hne
  | cons c rest =>
    have hc := hwhole c List.mem_cons_self
    have hpoint : c ≠ '.' := of_isDigit (p := fun c => c ≠ '.') (by decide) hc
    have hdrop : (rest ++ '.' :: (part ++ tail e)).dropWhile Form.isDigitOrLine = '.' :: (part ++ tail e) := by
      rw [dropWhile_digits fun x hx => hwhole x (List.mem_cons_of_mem c hx)]
      exact List.dropWhile_cons_of_neg (by decide)
    unfold Form.isFloat
    rw [hcut, htext]
    dsimp only
    rw [List.cons_append]
    split
    · rename_i heq
      exact absurd (List.cons.inj heq).1 hpoint
    · rename_i heq
      obtain ⟨rfl, rfl⟩ := List.cons.inj heq
      rw [hc, hdrop]
      show (true && Form.isExponent ((part ++ tail e).dropWhile Form.isDigitOrLine)) = true
      rw [dropWhile_digits hpart, isExponent_tail]
      rfl
    · rename_i heq
      cases heq

/-- The first digit of a number is no zero, unless the number is. -/
theorem toDigits_eq_cons {n : Nat} (hn : n ≠ 0) : ∃ c rest, Nat.toDigits 10 n = c :: rest ∧ c ≠ '0' := by
  induction n using Nat.strongRecOn with
  | _ n ih =>
    rw [Nat.toDigits_eq_if (by decide)]
    split
    · rename_i hless
      have hchar : ∀ d < 10, d ≠ 0 → Nat.digitChar d ≠ '0' := by decide
      exact ⟨_, [], rfl, hchar n hless hn⟩
    · rename_i hless
      obtain ⟨c, rest, hdigits, hc⟩ := ih (n / 10) (by omega) (by omega)
      exact ⟨c, rest ++ [(n % 10).digitChar], by rw [hdigits]; rfl, hc⟩

theorem isFloat_digits (n : Nat) (negative : Bool) : Form.isFloat (signed negative (Nat.toDigits 10 n)) = false := by
  have hcut := (Numeric.of_toDigits n).cutSign negative
  have hdigits : ∀ c ∈ Nat.toDigits 10 n, c.isDigit = true := fun c => Numeral.isDigit_of_mem_toDigits
  unfold Form.isFloat
  rw [hcut]
  dsimp only
  generalize Nat.toDigits 10 n = body at hdigits ⊢
  split
  · rename_i heq
    cases hdigits '.' List.mem_cons_self
  · rename_i c rest heq
    have hnil := dropWhile_allDigits fun x hx => hdigits x (List.mem_cons_of_mem c hx)
    rw [hnil, Bool.and_false]
  · rfl

theorem isInt_digits (n : Nat) (negative : Bool) : Form.isInt (signed negative (Nat.toDigits 10 n)) = true := by
  have hcut := (Numeric.of_toDigits n).cutSign negative
  have hdigits : ∀ c ∈ Nat.toDigits 10 n, c.isDigit = true := fun c => Numeral.isDigit_of_mem_toDigits
  unfold Form.isInt
  rw [hcut]
  dsimp only
  by_cases hn : n = 0
  · subst hn
    rfl
  · obtain ⟨c, rest, hcons, hc⟩ := toDigits_eq_cons hn
    rw [hcons] at hdigits ⊢
    have hnil := dropWhile_allDigits fun x hx => hdigits x (List.mem_cons_of_mem c hx)
    split
    · rename_i heq
      exact absurd (List.cons.inj heq).1 hc
    · rename_i heq
      obtain ⟨rfl, rfl⟩ := List.cons.inj heq
      rw [hnil, hdigits c List.mem_cons_self]
      rfl
    · rename_i heq
      cases heq

theorem isTime_exponent (c : Char) (e : Int) (negative : Bool) :
    Form.isTime (signed negative (c :: tail (some e))) = false := by
  have hdigits : Form.digits? 4 (signed negative (c :: tail (some e))) = none := by
    unfold Form.digits?
    rw [if_neg]
    cases negative <;> simp [signed, tail]
  rw [Form.isTime, Form.time?, hdigits]
  rfl

section

variable {c : Char} (hc : c.isDigit = true) (e : Int) (negative : Bool)
include hc

theorem isFloat_exponent : Form.isFloat (signed negative (c :: tail (some e))) = false := by
  have hpoint : c ≠ '.' := of_isDigit (p := fun c => c ≠ '.') (by decide) hc
  unfold Form.isFloat
  rw [(Numeric.of_exponent hc e).cutSign negative]
  dsimp only
  split
  · rename_i heq
    exact absurd (List.cons.inj heq).1 hpoint
  · rename_i heq
    obtain ⟨rfl, rfl⟩ := List.cons.inj heq
    exact Bool.and_false _
  · rfl

theorem isInt_exponent : Form.isInt (signed negative (c :: tail (some e))) = false := by
  unfold Form.isInt
  rw [(Numeric.of_exponent hc e).cutSign negative]
  dsimp only
  split
  · rename_i heq
    obtain ⟨rfl, rfl⟩ := List.cons.inj heq
    rfl
  · rename_i heq
    obtain ⟨rfl, rfl⟩ := List.cons.inj heq
    exact Bool.and_false _
  · rfl

/-- A digit with an exponent is no number and no time. -/
theorem ofPlain_exponent : Tag.ofPlain (String.ofList (signed negative (c :: tail (some e)))) = .str := by
  rw [(Numeric.of_exponent hc e).ofPlain_eq, isFloat_exponent hc, isInt_exponent hc, isTime_exponent]
  rfl

end

/-! ## Values -/

theorem numeral_signed {body : List Char} (h : Numeric body) (negative : Bool) :
    numeral (signed negative body) = .ok (negative, body) := by
  have hfilter : (signed negative body).filter (· ≠ '_') = signed negative body :=
    List.filter_eq_self.2 fun c hc => decide_eq_true (isNumeralChar_spec (h.chars_signed hc)).ne_line
  have hne : (signed negative body).isEmpty = false := by
    obtain ⟨c, rest, rfl, -⟩ := h.head
    cases negative <;> rfl
  unfold numeral
  rw [hfilter]
  dsimp only
  rw [h.cutSign negative, hne]
  rfl

/-- No colon stands in a text of a number. -/
theorem Numeric.no_colon {body : List Char} (h : Numeric body) : body.contains ':' = false := by
  rw [List.contains_eq_mem, decide_eq_false_iff_not]
  intro hc
  exact (isNumeralChar_spec (h.chars _ hc)).ne_colon rfl

theorem Numeric.trim_eq {body : List Char} (h : Numeric body) : Numeral.trim body = body := by
  have hdrop : ∀ {s : List Char}, (∀ c ∈ s, Text.isNumeralBlank c = false) → s.dropWhile Text.isNumeralBlank = s := by
    intro s hs
    cases s with
    | nil => rfl
    | cons c rest => exact List.dropWhile_cons_of_neg (by rw [hs c List.mem_cons_self]; exact Bool.false_ne_true)
  have hblank : ∀ c ∈ body, Text.isNumeralBlank c = false := fun c hc => (isNumeralChar_spec (h.chars c hc)).no_blank
  rw [Numeral.trim, hdrop hblank, hdrop fun c hc => hblank c (List.mem_reverse.1 hc), List.reverse_reverse]

/-- The text of an integer within the limit of digits is read as the integer. -/
theorem int?_toDigits {n : Nat} (hlength : (Nat.toDigits 10 n).length ≤ Numeral.maxDecimalDigits) :
    Numeral.int? 10 (Nat.toDigits 10 n) = some n := by
  have hnumeric := Numeric.of_toDigits n
  have hmark : Numeral.dropMark 10 (Nat.toDigits 10 n) = Nat.toDigits 10 n := by
    unfold Numeral.dropMark
    split
    · rename_i c rest heq
      rw [heq]
      exact if_neg (show ¬some c.toLower = Numeral.baseMark 10 from Option.some_ne_none _)
    · rfl
  have hempty : (Nat.toDigits 10 n).isEmpty = false := by
    rw [List.isEmpty_eq_false_iff]
    exact Nat.toDigits_ne_nil
  have hread := Numeral.natOf?_toDigits n 0
  rw [Nat.zero_mul, Nat.zero_add] at hread
  have hcut : Numeral.cutSign (Nat.toDigits 10 n) = (false, Nat.toDigits 10 n) := hnumeric.cutSign false
  unfold Numeral.int?
  rw [hnumeric.trim_eq, hcut]
  dsimp only
  rw [hmark, hempty, hread, if_neg (by simpa using hlength)]
  rfl

theorem intValue_signed {n : Nat} (hlength : (Nat.toDigits 10 n).length ≤ Numeral.maxDecimalDigits) (negative : Bool) :
    intValue (String.ofList (signed negative (Nat.toDigits 10 n))) = .ok (if negative then -(n : Int) else n) := by
  have hnumeric := Numeric.of_toDigits n
  unfold intValue
  rw [String.toList_ofList, numeral_signed hnumeric negative]
  simp only [bind, Except.bind]
  by_cases hn : n = 0
  · subst hn
    cases negative <;> rfl
  · have hread := int?_toDigits hlength
    have hcolon := hnumeric.no_colon
    obtain ⟨c, rest, hcons, hc⟩ := toDigits_eq_cons hn
    rw [hcons] at hread hcolon ⊢
    split
    · rename_i heq
      cases heq
    · rename_i heq
      exact absurd (List.cons.inj heq).1 hc
    · rename_i heq
      exact absurd (List.cons.inj heq).1 hc
    · rename_i heq
      exact absurd (List.cons.inj heq).1 hc
    · rename_i heq
      exact absurd (List.cons.inj heq).1 hc
    · rw [hcolon, hread]
      rfl

/-- Characters of numbers are small letters. -/
theorem lower_signed {body : List Char} (h : Numeric body) (negative : Bool) :
    Text.lower (String.ofList (signed negative body)) = String.ofList (signed negative body) := by
  have hlower : ∀ {s before : List Char}, (∀ c ∈ s, isNumeralChar c = true) → Text.lowerFrom before s = s := by
    intro s
    induction s with
    | nil => exact fun _ => rfl
    | cons c rest ih =>
      intro before hs
      have hspec := isNumeralChar_spec (hs c List.mem_cons_self)
      rw [Text.lowerFrom, if_neg hspec.ne_sigma, hspec.small, ih fun x hx => hs x (List.mem_cons_of_mem c hx)]
      rfl
  rw [Text.lower, String.toList_ofList, hlower fun c => h.chars_signed]

/-- A text of a number that starts with a digit is the name of none. -/
theorem Numeric.float?_eq {body : List Char} (h : Numeric body) : Numeral.float? body = Numeral.decimal? false body := by
  have hcut : Numeral.cutSign body = (false, body) := h.cutSign false
  have htrim := h.trim_eq
  obtain ⟨c, rest, rfl, hc⟩ := h.head
  have hlow : c.toLower = c := of_isDigit (p := fun c => c.toLower = c) (by decide) hc
  have hname : ∀ {w : String} {d : Char} {more : List Char}, w.toList = d :: more → d.isDigit = false →
      String.ofList ((c :: rest).map Char.toLower) ≠ w := by
    rintro w d more hw hd rfl
    rw [String.toList_ofList, List.map_cons, hlow] at hw
    rw [← (List.cons.inj hw).1, hc] at hd
    cases hd
  unfold Numeral.float?
  rw [htrim, hcut]
  dsimp only
  split
  · rename_i heq
    exact absurd heq (hname rfl rfl)
  · rename_i heq
    exact absurd heq (hname rfl rfl)
  · rename_i heq
    exact absurd heq (hname rfl rfl)
  · rfl

/-- A decimal with a point is read as a number. -/
theorem floatValue_signed {body whole part : List Char} {e : Option Int} (h : Pointed body whole part e) {x : Binary64}
    (hx : Numeral.decimal? false body = some x) (negative : Bool) :
    floatValue none (String.ofList (signed negative body)) = .ok (.ofNumeral none (if negative then x.neg else x)) := by
  have hnumeric := Numeric.of_pointed h
  obtain ⟨c, rest, hcons, hc⟩ := hnumeric.head
  have hne : ∀ {more : List Char}, body ≠ '.' :: more := by
    rintro more rfl
    rw [← (List.cons.inj hcons).1] at hc
    cases hc
  have hnan : body ≠ ".nan".toList := hne
  have hinfinite : body ≠ ".inf".toList := hne
  unfold floatValue
  rw [lower_signed hnumeric, String.toList_ofList, numeral_signed hnumeric negative]
  simp only [bind, Except.bind]
  rw [if_neg hnan, if_neg hinfinite, hnumeric.no_colon, hnumeric.float?_eq, hx]
  rfl

end SchemaClosure.Yaml
