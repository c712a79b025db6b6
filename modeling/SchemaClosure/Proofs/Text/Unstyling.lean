import SchemaClosure.Proofs.Text.Joining
import SchemaClosure.Text.CodePoint
import SchemaClosure.Text.Unstyled

/-!
# Dropping styles

Where no style can go on, a text can be cut and the styles of both sides dropped apart (`Chars.unstyled_append`): a
style that is begun in front ends there at the latest. So the styles of a text are those of its lines
(`Text.unstyled_lines`).
The code that starts a style goes away whatever follows it (`Chars.unstyled_code`), and what has no escape character
stays, whatever follows it (`Chars.unstyled_plain_append`).
-/

namespace SchemaClosure

namespace Chars

/-- Whether a style that has begun can go on with a character. -/
def continuesStyle (c : Char) : Bool := c = '[' || isStyleArgument c || c.isAlpha

/-- No style goes on into the text from what stands in front of it. -/
def Breaks (s : List Char) : Prop := ∀ c ∈ s.head?, continuesStyle c = false

variable {s rest : List Char}

theorem breaks_cons {c : Char} (h : continuesStyle c = false) (s : List Char) : Breaks (c :: s) := by
  simpa [Breaks] using h

theorem Breaks.of_head (h : Breaks rest) {c : Char} (hc : c ∈ rest.head?) :
    c ≠ '[' ∧ isStyleArgument c = false ∧ c.isAlpha = false := by
  simpa [continuesStyle, and_assoc] using h c hc

/-! ## The length of a style -/

theorem exists_arguments (s : List Char) : ∃ arguments tail, s = arguments ++ tail ∧
    (∀ c ∈ arguments, isStyleArgument c = true) ∧ ∀ c ∈ tail.head?, isStyleArgument c = false := by
  induction s with
  | nil => exact ⟨[], [], rfl, by simp, by simp⟩
  | cons c s ih =>
    by_cases hc : isStyleArgument c = true
    · obtain ⟨arguments, tail, rfl, harguments, htail⟩ := ih
      exact ⟨c :: arguments, tail, rfl, List.forall_mem_cons.2 ⟨hc, harguments⟩, htail⟩
    · exact ⟨[], c :: s, rfl, by simp, by simpa using hc⟩

theorem styleLength_of_ne {c : Char} (h : c ≠ escape) (s : List Char) : styleLength (c :: s) = 0 := by
  cases s with
  | nil => rfl
  | cons d s => by_cases hd : d = '[' <;> simp [styleLength, h, hd]

theorem styleLength_of_ne_bracket {d : Char} (h : d ≠ '[') (c : Char) (s : List Char) :
    styleLength (c :: d :: s) = 0 := by
  simp [styleLength, h]

/-- What starts like a style is one iff a letter ends it. -/
theorem styleLength_arguments {arguments tail : List Char} (h : ∀ c ∈ arguments, isStyleArgument c = true)
    (htail : ∀ c ∈ tail.head?, isStyleArgument c = false) :
    styleLength (escape :: '[' :: (arguments ++ tail)) =
      if tail.head?.any Char.isAlpha then arguments.length + 3 else 0 := by
  have htake : (arguments ++ tail).takeWhile isStyleArgument = arguments := by
    rw [List.takeWhile_append_of_pos h]
    cases tail with
    | nil => simp
    | cons c tail => simp [htail c rfl]
  simp [styleLength, htake]

theorem styleLength_le (s : List Char) : styleLength s ≤ s.length := by
  match s with
  | [] => exact Nat.le_refl 0
  | [_] => exact Nat.zero_le _
  | c :: d :: s =>
    by_cases hc : c = escape
    · by_cases hd : d = '['
      · obtain ⟨arguments, tail, rfl, harguments, htail⟩ := exists_arguments s
        rw [hc, hd, styleLength_arguments harguments htail]
        split
        · rename_i hletter
          have hne : tail.length ≠ 0 := by
            intro hnil
            rw [List.length_eq_zero_iff.1 hnil] at hletter
            cases hletter
          simp only [List.length_cons, List.length_append]
          omega
        · exact Nat.zero_le _
      · simp [styleLength_of_ne_bracket hd]
    · simp [styleLength_of_ne hc]

/-- A style is as long with a text behind it into which it does not go on. -/
theorem styleLength_append (hne : s ≠ []) (h : Breaks rest) : styleLength (s ++ rest) = styleLength s := by
  match s with
  | [c] =>
    cases rest with
    | nil => rfl
    | cons d rest => exact styleLength_of_ne_bracket (h.of_head rfl).1 c rest
  | c :: d :: s =>
    by_cases hc : c = escape
    · by_cases hd : d = '['
      · obtain ⟨arguments, tail, rfl, harguments, htail⟩ := exists_arguments s
        have hhead : (∀ c ∈ (tail ++ rest).head?, isStyleArgument c = false) ∧
            (tail ++ rest).head?.any Char.isAlpha = tail.head?.any Char.isAlpha := by
          cases tail with
          | nil =>
            -- the arguments reach up to the cut, and no letter that could end the style stands behind it
            refine ⟨fun c hc => (h.of_head hc).2.1, ?_⟩
            cases rest with
            | nil => rfl
            | cons d rest => exact (h.of_head rfl).2.2
          | cons letter tail => exact ⟨htail, rfl⟩
        rw [hc, hd, styleLength_arguments harguments htail, List.cons_append, List.cons_append, List.append_assoc,
          styleLength_arguments harguments hhead.1, hhead.2]
      · exact (styleLength_of_ne_bracket hd c _).trans (styleLength_of_ne_bracket hd c s).symm
    · exact (styleLength_of_ne hc _).trans (styleLength_of_ne hc _).symm

/-! ## Texts that are put together -/

theorem unstyledFrom_append {skip : Nat} (hskip : skip ≤ s.length) (h : Breaks rest) :
    unstyledFrom skip (s ++ rest) = unstyledFrom skip s ++ unstyled rest := by
  -- what is still to be dropped of a style lies in front of the cut: a style is no longer than the text it starts in
  induction s generalizing skip with
  | nil =>
    obtain rfl : skip = 0 := Nat.le_zero.1 hskip
    rfl
  | cons c s ih =>
    cases skip with
    | succ skip => exact ih (Nat.le_of_succ_le_succ hskip)
    | zero =>
      have hlength := styleLength_append (List.cons_ne_nil c s) h
      have hle := styleLength_le (c :: s)
      rw [List.cons_append] at hlength ⊢
      rw [unstyledFrom, unstyledFrom, hlength]
      cases hn : styleLength (c :: s) with
      | zero => simp [ih]
      | succ n => exact ih (by simp at hle; omega)

/-- The styles of a text are those in front of a cut and those behind it. -/
theorem unstyled_append (h : Breaks rest) : unstyled (s ++ rest) = unstyled s ++ unstyled rest :=
  unstyledFrom_append (Nat.zero_le _) h

theorem unstyled_plain_append (h : escape ∉ s) (rest : List Char) : unstyled (s ++ rest) = s ++ unstyled rest := by
  induction s with
  | nil => rfl
  | cons c s ih =>
    rw [List.mem_cons, not_or] at h
    rw [List.cons_append, unstyled, unstyledFrom, styleLength_of_ne (Ne.symm h.1)]
    exact congrArg (c :: ·) (ih h.2)

theorem unstyledFrom_length_append (s rest : List Char) : unstyledFrom s.length (s ++ rest) = unstyled rest := by
  induction s with
  | nil => rfl
  | cons c s ih => exact ih

theorem unstyledFrom_sublist (skip : Nat) (s : List Char) : List.Sublist (unstyledFrom skip s) s := by
  induction s generalizing skip with
  | nil => simp only [unstyledFrom, List.nil_sublist]
  | cons c s ih =>
    cases skip with
    | succ skip => exact (ih skip).cons c
    | zero =>
      rw [unstyledFrom]
      split
      · exact (ih 0).cons_cons c
      · exact (ih _).cons c

/-- The code of a style goes away, whatever follows it. -/
theorem unstyled_code {arguments : List Char} (h : ∀ c ∈ arguments, isStyleArgument c = true) (rest : List Char) :
    unstyled (escape :: '[' :: (arguments ++ 'm' :: rest)) = unstyled rest := by
  have hlength : styleLength (escape :: '[' :: (arguments ++ 'm' :: rest)) = arguments.length + 3 := by
    rw [styleLength_arguments h (by simp [isStyleArgument])]
    rfl
  have hsplit : '[' :: (arguments ++ 'm' :: rest) = ('[' :: (arguments ++ ['m'])) ++ rest := by simp
  rw [unstyled, unstyledFrom, hlength, hsplit]
  dsimp only
  rw [← unstyledFrom_length_append ('[' :: (arguments ++ ['m'])) rest]
  simp

end Chars

namespace Text

/-- The text has no escape character, so that no style starts in it. -/
def Plain (s : String) : Prop := Chars.escape ∉ s.toList

instance (s : String) : Decidable (Plain s) := inferInstanceAs (Decidable (_ ∉ _))

theorem plain_append {s t : String} : Plain (s ++ t) ↔ Plain s ∧ Plain t := by simp [Plain, not_or]

theorem plain_join {separator : String} (hseparator : Plain separator) {l : List String} (h : ∀ s ∈ l, Plain s) :
    Plain (join separator l) := by
  intro hc
  rcases mem_join hc with hc | ⟨s, hs, hc⟩
  · exact hseparator hc
  · exact h s hs hc

theorem plain_repeated {c : Char} (h : c ≠ Chars.escape) (n : Nat) : Plain (repeated n c) := by
  rw [Plain, repeated, String.toList_ofList, List.mem_replicate, not_and]
  exact fun _ => h.symm

theorem plain_int (n : Int) : Plain (toString n) := by
  have hdigits (k : Nat) : Plain k.repr := by
    rw [Plain, Nat.repr_eq_ofList_toDigits, String.toList_ofList]
    exact fun h => absurd (Nat.isDigit_of_mem_toDigits (by decide) (by decide) h) (by decide)
  rw [Int.toString_eq_repr]
  cases n with
  | ofNat k => exact hdigits k
  | negSucc k => exact plain_append.2 ⟨by decide, hdigits (k + 1)⟩

theorem unstyled_append {t : String} (h : Chars.Breaks t.toList) (s : String) :
    unstyled (s ++ t) = unstyled s ++ unstyled t := by
  rw [unstyled, String.toList_append, Chars.unstyled_append h, String.ofList_append, unstyled, unstyled]

theorem unstyled_plain_append {s : String} (h : Plain s) (t : String) : unstyled (s ++ t) = s ++ unstyled t := by
  rw [unstyled, String.toList_append, Chars.unstyled_plain_append h, String.ofList_append, String.ofList_toList,
    unstyled]

/-- What stays of a text has octets if the text has. -/
theorem isEncodable_unstyled {s : String} (h : isEncodable s = true) : isEncodable (unstyled s) = true := by
  rw [isEncodable, List.all_eq_true] at h ⊢
  intro c hc
  rw [unstyled, String.toList_ofList] at hc
  exact h c ((Chars.unstyledFrom_sublist 0 _).subset hc)

theorem unstyled_plain {s : String} (h : Plain s) : unstyled s = s := by
  simpa [unstyled, Chars.unstyled, Chars.unstyledFrom] using unstyled_plain_append h ""

/-- The styles of a text are those of its lines. -/
theorem unstyled_lines (l : List String) : unstyled (join "\n" l) = join "\n" (l.map unstyled) := by
  match l with
  | [] => rfl
  | [_] => rfl
  | s :: t :: rest =>
    have hcut : unstyled (s ++ "\n" ++ join "\n" (t :: rest)) =
        unstyled s ++ unstyled ("\n" ++ join "\n" (t :: rest)) := by
      have hbreaks : Chars.Breaks ("\n" ++ join "\n" (t :: rest)).toList := by
        rw [String.toList_append]
        exact Chars.breaks_cons (c := '\n') (by decide) _
      rw [String.append_assoc, unstyled_append hbreaks]
    have ih := unstyled_lines (t :: rest)
    rw [List.map_cons, List.map_cons, join, join, hcut, unstyled_plain_append (by decide), ih, List.map_cons,
      String.append_assoc]

end Text

end SchemaClosure
