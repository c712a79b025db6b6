import Mathlib.Data.List.TakeWhile
import Mathlib.Data.Nat.Digits.Defs
import SchemaClosure.Proofs.Json.Literal
import SchemaClosure.Proofs.Yaml.Cursor

/-!
# Literals as quoted scalars

A string literal of JSON text is a double-quoted scalar, which is read as the text of the literal
(`Quoted.read_literal`): every escape of the one notation is one of the other, and spaces between words stand
for themselves since no line ends in a literal.
-/

namespace SchemaClosure.Yaml

theorem isBreak_of_isShown {x : Char} (h : Json.isShown x = true) : isBreak x = false := by
  have hne : ∀ y : Char, Json.isShown y = false → x ≠ y := by
    rintro y hy rfl
    exact Bool.false_ne_true (hy.symm.trans h)
  simp [isBreak, hne '\n' rfl, hne '\r' rfl, hne '\x85' rfl, hne '\u2028' rfl, hne '\u2029' rfl]

theorem endsMark_of_isShown {x : Char} (h : Json.isShown x = true) (hspace : x ≠ ' ') : endsMark (some x) = false := by
  have htab : x ≠ '\t' := by
    rintro rfl
    cases h
  simp [endsMark, isBreak_of_isShown h, hspace, htab]

namespace Quoted

theorem hexValue?_digitChar {d : Nat} (h : d < 16) : hexValue? (Nat.digitChar d) = some d := by
  have : ∀ d < 16, hexValue? (Nat.digitChar d) = some d := by decide
  exact this d h

/-- The digits of a number, behind others, denote the number together with these. -/
theorem foldl_toDigits (n acc : Nat) :
    (Nat.toDigits 16 n).foldl (fun acc c => do return (← acc) * 16 + (← hexValue? c)) (some acc) =
      some (acc * 16 ^ (Nat.toDigits 16 n).length + n) := by
  induction n using Nat.strong_induction_on with
  | _ n ih =>
    rw [Nat.toDigits_eq_if (by norm_num)]
    split
    · rename_i h
      simp [hexValue?_digitChar h]
    · rename_i h
      rw [List.foldl_append, ih (n / 16) (by omega)]
      have hdigit := hexValue?_digitChar (Nat.mod_lt n (show 0 < 16 by norm_num))
      simp only [List.foldl_cons, List.foldl_nil, hdigit, Option.bind_eq_bind, Option.bind_some, Option.pure_def,
        List.length_append, List.length_cons, List.length_nil, pow_succ]
      congr 1
      rw [Nat.add_mul, Nat.mul_assoc]
      omega

theorem length_digits {n : Nat} (h : n < 0x10000) : (Text.digits 16 4 n).length = 4 := by
  have hlen : (Nat.toDigits 16 n).length ≤ 4 := Nat.toDigits_length 16 n 4 (by norm_num) (by norm_num at h ⊢; exact h)
  simp only [Text.digits, List.length_append, List.length_replicate]
  omega

theorem hexNumber?_digits {n : Nat} (h : n < 0x10000) (rest : List Char) :
    hexNumber? 4 (Text.digits 16 4 n ++ rest) = some n := by
  have hdigits := length_digits h
  have hzeros : ∀ k : Nat, (List.replicate k '0').foldl (fun acc c => do return (← acc) * 16 + (← hexValue? c))
      (some 0) = some 0 := by
    intro k
    induction k with
    | zero => rfl
    | succ k ih => exact ih
  rw [hexNumber?, if_neg (by rw [List.length_append]; omega), List.take_left' hdigits, Text.digits,
    List.foldl_append, hzeros, foldl_toDigits, Nat.zero_mul, Nat.zero_add]

theorem numericEscape_eq {n : Nat} (hn : n < 0x10000) : numericEscape n = .ok (Text.ofCode n) := by
  have h₁ : ¬0x7FFFFFFF < n := by omega
  have h₂ : ¬0x10FFFF < n := by omega
  rw [numericEscape, if_neg h₁, if_neg h₂]

/-- A numeric escape of four digits is read. -/
theorem run_unitEscape {c : Cursor} {n : Nat} {rest : List Char} (h : c.rest = Json.unitEscape n ++ rest)
    (hn : n < 0x10000) (fuel : Nat) (acc : List Char) :
    run true (fuel + 1) c acc = run true fuel (c.skip 6) (Text.ofCode n :: acc) := by
  have hletter : escape? 'u' = none := rfl
  have hwidth : escapeDigits? 'u' = some 4 := rfl
  rw [Json.unitEscape] at h
  rw [run, h]
  simp [hletter, hwidth, hexNumber?_digits hn, numericEscape_eq hn, bind, Except.bind]

/-- One character of a literal is read. -/
theorem run_literalChar {c : Cursor} {x : Char} {rest : List Char} (h : c.rest = Json.literalChar x ++ rest)
    (hx : Text.code x < 0x10000) (hspace : x ≠ ' ') (fuel : Nat) (acc : List Char) :
    run true (fuel + 1) c acc = run true fuel (c.skip (Json.literalChar x).length) (x :: acc) := by
  rcases Json.literalChar_cases hx with ⟨hplain, hquote, hescape, hshown⟩ | ⟨e, hletter, he, -⟩ | ⟨n, hn, hunit, rfl⟩
  · rw [hplain] at h ⊢
    rw [run, h]
    simp [hquote, hescape, endsMark_of_isShown hshown hspace, Cursor.next_eq_skip]
  · rw [hletter] at h ⊢
    rw [run, h]
    simp [he]
  · have hlen : (Json.unitEscape n).length = 6 := by
      rw [Json.unitEscape, List.length_cons, List.length_cons, length_digits hn]
    rw [hunit] at h ⊢
    rw [run_unitEscape h hn, hlen]

/-- What stands for a character other than a space starts with no white space. -/
theorem head_literalChar {x : Char} (hx : Text.code x < 0x10000) (hspace : x ≠ ' ') :
    ∃ y more, Json.literalChar x = y :: more ∧ endsMark (some y) = false := by
  rcases Json.literalChar_cases hx with ⟨hplain, -, -, hshown⟩ | ⟨e, hletter, -⟩ | ⟨n, -, hunit, -⟩
  · exact ⟨x, [], hplain, endsMark_of_isShown hshown hspace⟩
  · exact ⟨_, _, hletter, rfl⟩
  · exact ⟨_, _, hunit, rfl⟩

/-- Characters without spaces are read up to a space or the closing quote. -/
theorem run_word {s rest : List Char} {y : Char} (hs : ∀ x ∈ s, Text.code x < 0x10000 ∧ x ≠ ' ')
    (hy : y = '"' ∨ y = ' ') : ∀ (acc : List Char) {c : Cursor} {fuel : Nat},
    c.rest = s.flatMap Json.literalChar ++ y :: rest → s.length < fuel →
      run true fuel c acc = .ok (s.reverse ++ acc, c.skip (s.flatMap Json.literalChar).length) := by
  induction s with
  | nil =>
    intro acc c fuel h hfuel
    obtain ⟨fuel, rfl⟩ := Nat.exists_eq_succ_of_ne_zero hfuel.ne'
    rw [run, h]
    rcases hy with rfl | rfl <;> rfl
  | cons x s ih =>
    intro acc c fuel h hfuel
    obtain ⟨fuel, rfl⟩ := Nat.exists_eq_succ_of_ne_zero (Nat.ne_zero_of_lt hfuel)
    obtain ⟨hx, hspace⟩ := hs x List.mem_cons_self
    rw [List.flatMap_cons, List.append_assoc] at h
    rw [run_literalChar h hx hspace, ih (fun z hz => hs z (List.mem_cons_of_mem x hz)), Cursor.skip_skip,
      List.flatMap_cons, List.length_append, List.reverse_cons, List.append_assoc]
    · rfl
    · rw [Cursor.rest_skip, h, List.drop_left]
    · exact Nat.lt_of_succ_lt_succ hfuel

/-- Spaces in front of another character stand for themselves. -/
theorem spaces_eq {c : Cursor} {blanks rest : List Char} {y : Char} (h : c.rest = blanks ++ y :: rest)
    (hblanks : ∀ x ∈ blanks, x = ' ') (hy : endsMark (some y) = false) :
    spaces c = .ok (blanks, c.skip blanks.length) := by
  simp only [endsMark, Option.all_some, Bool.or_eq_false_iff, decide_eq_false_iff_not] at hy
  have htaken : c.rest.takeWhile (fun x => x = ' ' || x = '\t') = blanks := by
    rw [h, List.takeWhile_append_of_pos, List.takeWhile_cons_of_neg, List.append_nil]
    · simp [hy.1.2, hy.2]
    · intro x hx
      simp [hblanks x hx]
  have hleft : (c.skip blanks.length).rest = y :: rest := by
    rw [Cursor.rest_skip, h, List.drop_left]
  have hlength : blanks.length < c.rest.length := by
    rw [h, List.length_append, List.length_cons]
    omega
  have hbreak := Cursor.lineBreak?_eq_none hleft hy.1.1
  simp [spaces, Cursor.span, htaken, hlength, hbreak, bind, Except.bind, pure, Except.pure]

/-- Spaces stand for themselves in a literal. -/
theorem flatMap_literalChar_of_spaces {blanks : List Char} (h : ∀ x ∈ blanks, x = ' ') :
    blanks.flatMap Json.literalChar = blanks := by
  induction blanks with
  | nil => rfl
  | cons x rest ih =>
    obtain rfl := h x List.mem_cons_self
    rw [List.flatMap_cons, ih fun y hy => h y (List.mem_cons_of_mem _ hy)]
    rfl

/-- A text with a space is a word, spaces, and what starts with another character. -/
theorem exists_word_spaces {s : List Char} (h : ' ' ∈ s) :
    ∃ word blanks more, s = word ++ blanks ++ more ∧ ' ' ∉ word ∧ blanks ≠ [] ∧ (∀ x ∈ blanks, x = ' ') ∧
      more.head? ≠ some ' ' := by
  obtain ⟨word, tail, rfl, hword⟩ := List.eq_append_cons_of_mem h
  refine ⟨word, ' ' :: tail.takeWhile (· = ' '), tail.dropWhile (· = ' '), ?_, hword, List.cons_ne_nil _ _, ?_, ?_⟩
  · rw [List.append_assoc, List.cons_append, List.takeWhile_append_dropWhile]
  · intro x hx
    rcases List.mem_cons.1 hx with rfl | hx
    · rfl
    · simpa using List.mem_takeWhile_imp hx
  · intro hhead
    have := List.head?_dropWhile_not (· = ' ') tail
    rw [hhead] at this
    simp at this

theorem length_le_flatMap {s : List Char} (hs : ∀ x ∈ s, Text.code x < 0x10000) :
    s.length ≤ (s.flatMap Json.literalChar).length := by
  induction s with
  | nil => exact Nat.le_refl 0
  | cons x rest ih =>
    have hx : 0 < (Json.literalChar x).length := by
      rcases Json.literalChar_cases (hs x List.mem_cons_self) with ⟨hplain, -⟩ | ⟨e, hletter, -⟩ | ⟨n, -, hunit, -⟩
      · simp [hplain]
      · simp [hletter]
      · simp [hunit, Json.unitEscape]
    have := ih fun y hy => hs y (List.mem_cons_of_mem x hy)
    rw [List.flatMap_cons, List.length_append, List.length_cons]
    omega

/-- Behind spaces the rest of the characters starts with no space and no end of a line. -/
theorem head_flatMap {more : List Char} (rest : List Char) (hs : ∀ x ∈ more, Text.code x < 0x10000)
    (hmore : more.head? ≠ some ' ') :
    ∃ y after, more.flatMap Json.literalChar ++ '"' :: rest = y :: after ∧ endsMark (some y) = false := by
  cases more with
  | nil => exact ⟨_, _, rfl, rfl⟩
  | cons x more =>
    obtain ⟨y, after, hy, hends⟩ := head_literalChar (hs x List.mem_cons_self) (by simpa using hmore)
    exact ⟨y, _, by rw [List.flatMap_cons, hy]; rfl, hends⟩

section

variable {c : Cursor} {word after : List Char} {y : Char} (h : c.rest = word.flatMap Json.literalChar ++ y :: after)
include h

/-- A word is read in the fuel that the text behind the place gives. -/
theorem length_lt_fuel (hword : ∀ x ∈ word, Text.code x < 0x10000) : word.length < c.rest.length + 1 := by
  have := length_le_flatMap hword
  rw [h, List.length_append]
  omega

theorem rest_skip_flatMap : (c.skip (word.flatMap Json.literalChar).length).rest = y :: after := by
  rw [Cursor.rest_skip, h, List.drop_left]

end

/-- The characters of a literal are read up to its closing quote: a word, and behind it either the quote or
spaces and the rest of the characters. -/
theorem runs_literal {rest : List Char} (n : Nat) : ∀ {s : List Char} {c : Cursor} {fuel : Nat} {acc : List Char},
    s.length < n → (∀ x ∈ s, Text.code x < 0x10000) → c.rest = s.flatMap Json.literalChar ++ '"' :: rest → n ≤ fuel →
      runs true fuel c acc = .ok (s.reverse ++ acc, c.skip ((s.flatMap Json.literalChar).length + 1)) := by
  induction n with
  | zero =>
    intro s c fuel acc hn
    exact absurd hn (Nat.not_lt_zero _)
  | succ n ih =>
    intro s c fuel acc hn hs h hfuel
    obtain ⟨fuel, rfl⟩ := Nat.exists_eq_succ_of_ne_zero (Nat.ne_zero_of_lt hfuel)
    by_cases hspace : ' ' ∈ s
    · obtain ⟨word, blanks, more, rfl, hword, hne, hblanks, hmore⟩ := exists_word_spaces hspace
      simp only [List.mem_append, or_imp, forall_and] at hs
      obtain ⟨⟨hsword, -⟩, hsmore⟩ := hs
      obtain ⟨x, others, rfl⟩ := List.exists_cons_of_ne_nil hne
      obtain rfl := hblanks x List.mem_cons_self
      rw [List.flatMap_append, List.flatMap_append, flatMap_literalChar_of_spaces hblanks, List.append_assoc,
        List.append_assoc] at h
      obtain ⟨y, after, hy, hends⟩ := head_flatMap rest hsmore hmore
      have hrun := run_word (fun x hx => ⟨hsword x hx, fun hx' => hword (hx' ▸ hx)⟩) (.inr rfl) acc h
        (length_lt_fuel h hsword)
      have hrest := rest_skip_flatMap h
      have hspaces := spaces_eq (hrest.trans (congrArg ((' ' :: others) ++ ·) hy)) hblanks hends
      have hnext : ((c.skip (word.flatMap Json.literalChar).length).skip (' ' :: others).length).rest =
          more.flatMap Json.literalChar ++ '"' :: rest := by
        rw [Cursor.rest_skip, hrest]
        exact List.drop_left
      have hlen : more.length < n := by
        simp only [List.length_append, List.length_cons] at hn
        omega
      rw [runs, hrun]
      simp only [bind, Except.bind, Cursor.peek, hrest, List.head?_cons, if_true, if_false, hspaces,
        Option.some.injEq, Char.reduceEq, ih hlen hsmore hnext (Nat.le_of_succ_le_succ hfuel)]
      rw [List.flatMap_append, List.flatMap_append, flatMap_literalChar_of_spaces hblanks, Cursor.skip_skip,
        Cursor.skip_skip]
      simp only [List.reverse_append, List.append_assoc, List.length_append, Nat.add_assoc]
    · have hrun := run_word (fun x hx => ⟨hs x hx, fun hx' => hspace (hx' ▸ hx)⟩) (.inl rfl) acc h
        (length_lt_fuel h hs)
      rw [runs, hrun]
      simp only [bind, Except.bind, Cursor.peek, rest_skip_flatMap h, List.head?_cons, if_true, Cursor.next_eq_skip,
        Cursor.skip_skip]
      rfl

theorem read_basicLiteral {c : Cursor} {s : String} {rest : List Char} (h : c.rest = (Json.literal s).toList ++ rest)
    (hs : ∀ x ∈ s.toList, Text.code x < 0x10000) :
    read true c = .ok (s, c.skip (Json.literal s).toList.length) := by
  rw [Json.literal, String.toList_ofList] at h ⊢
  have hnext : (c.skip 1).rest = s.toList.flatMap Json.literalChar ++ '"' :: rest := by
    rw [Cursor.rest_skip, h]
    simp
  have hlen : s.toList.length < c.rest.length := by
    have := length_le_flatMap hs
    simp only [h, List.length_append, List.length_cons]
    omega
  rw [read, Cursor.next_eq_skip, runs_literal _ hlen hs hnext (Nat.le_succ _), List.append_nil]
  simp only [bind, Except.bind, pure, Except.pure, List.reverse_reverse, String.ofList_toList, Cursor.skip_skip,
    List.length_append, List.length_cons, List.length_nil]
  congr 3
  omega

/-- **A literal** is read as the code units of its text. -/
theorem read_literal {c : Cursor} {s : String} {rest : List Char} (h : c.rest = (Json.literal s).toList ++ rest) :
    read true c = .ok (Text.units s, c.skip (Json.literal s).toList.length) := by
  rw [← Json.literal_units] at h
  have hread := read_basicLiteral h fun x hx => Text.basic_of_mem_units hx
  rwa [Json.literal_units] at hread

end Quoted

end SchemaClosure.Yaml
