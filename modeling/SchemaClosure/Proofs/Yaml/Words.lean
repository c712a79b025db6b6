import Mathlib.Data.List.TakeWhile
import SchemaClosure.Proofs.Yaml.Cursor
import SchemaClosure.Yaml.Token.Scalar

/-!
# Words as plain scalars

A word consists of letters, digits, points and signs, as numbers, truth values and null do. Between brackets it is a
plain scalar up to a comma, a closing bracket or a blank in front of one (`Plain.read_word`). The blanks behind it may
be passed or not; what is left is the same up to blanks.
-/

namespace SchemaClosure.Yaml

/-- A space or the end of a line. -/
def isBlank (c : Char) : Bool := c = ' ' || c = '\n'

theorem dropWhile_isBlank_append {blanks : List Char} (h : ∀ x ∈ blanks, isBlank x = true) (rest : List Char) :
    (blanks ++ rest).dropWhile isBlank = rest.dropWhile isBlank :=
  List.dropWhile_append_of_pos h

/-- A character of a word: an ASCII letter or digit, a point or a sign. -/
def isWordChar (c : Char) : Bool := c.isAlphanum || c = '.' || c = '+' || c = '-'

/-- A word: characters of words, of which the first one, or the one behind a minus sign, is a letter or digit. -/
def isWord (w : List Char) : Bool :=
  w.all isWordChar &&
    match w with
    | '-' :: x :: _ => x.isAlphanum
    | x :: _ => x.isAlphanum
    | [] => false

/-- The text goes on with a comma or a closing bracket. -/
def Ends (rest : List Char) : Prop :=
  ∃ y more, rest.dropWhile isBlank = y :: more ∧ (y = ',' ∨ y = ']' ∨ y = '\x7d')

theorem isBlank_iff {x : Char} : isBlank x = true ↔ x = ' ' ∨ x = '\n' := by
  simp [isBlank]

theorem isBlank_of_mem_spaces {s : List Char} {x : Char} (h : x ∈ s.takeWhile (· = ' ')) : isBlank x = true := by
  have := List.mem_takeWhile_imp h
  rw [decide_eq_true_eq] at this
  exact isBlank_iff.2 (.inl this)

/-- Blanks are spaces first, and what is blank behind them. -/
theorem takeWhile_isBlank (s : List Char) :
    s.takeWhile isBlank = s.takeWhile (· = ' ') ++ (s.dropWhile (· = ' ')).takeWhile isBlank := by
  conv => lhs; rw [← List.takeWhile_append_dropWhile (p := (· = ' ')) (l := s)]
  exact List.takeWhile_append_of_pos fun _ => isBlank_of_mem_spaces

theorem dropWhile_isBlank (s : List Char) : s.dropWhile isBlank = (s.dropWhile (· = ' ')).dropWhile isBlank := by
  conv => lhs; rw [← List.takeWhile_append_dropWhile (p := (· = ' ')) (l := s)]
  exact dropWhile_isBlank_append (fun _ => isBlank_of_mem_spaces) _

/-- Nothing is blank in front of a text whose first character is not. -/
theorem blanks_eq_nil {s : List Char} (h : ∀ x, s.head? = some x → ¬isBlank x = true) :
    s.takeWhile isBlank = [] ∧ s.dropWhile isBlank = s := by
  cases s with
  | nil => exact ⟨rfl, rfl⟩
  | cons x rest => exact ⟨List.takeWhile_cons_of_neg (h x rfl), List.dropWhile_cons_of_neg (h x rfl)⟩

/-- Where the text goes on so, it does from a blank or from such a character. -/
theorem Ends.cases {rest : List Char} (h : Ends rest) :
    (∃ after, rest = ' ' :: after ∧ Ends after) ∨ (∃ after, rest = '\n' :: after ∧ Ends after) ∨
      ∃ y more, rest = y :: more ∧ rest.dropWhile isBlank = rest ∧ (y = ',' ∨ y = ']' ∨ y = '\x7d') := by
  obtain ⟨y, more, hdrop, hy⟩ := h
  cases rest with
  | nil => cases hdrop
  | cons z after =>
    by_cases hz : isBlank z = true
    · rw [List.dropWhile_cons_of_pos hz] at hdrop
      rcases isBlank_iff.1 hz with rfl | rfl
      · exact .inl ⟨after, rfl, y, more, hdrop, hy⟩
      · exact .inr (.inl ⟨after, rfl, y, more, hdrop, hy⟩)
    · rw [List.dropWhile_cons_of_neg hz] at hdrop
      obtain ⟨rfl, -⟩ := List.cons.inj hdrop
      exact .inr (.inr ⟨_, _, rfl, List.dropWhile_cons_of_neg hz, hy⟩)

theorem Ends.not_atDocumentMark {c : Cursor} (h : Ends c.rest) : c.atDocumentMark = false := by
  rcases h.cases with ⟨_, hrest, -⟩ | ⟨_, hrest, -⟩ | ⟨y, _, hrest, -, hy⟩
  · simp [Cursor.atDocumentMark, hrest]
  · simp [Cursor.atDocumentMark, hrest]
  · rcases hy with rfl | rfl | rfl <;> simp [Cursor.atDocumentMark, hrest]

theorem isWordChar_ne {x y : Char} (hx : isWordChar x = true) (hy : isWordChar y = false) : x ≠ y := by
  rintro rfl
  exact Bool.false_ne_true (hy.symm.trans hx)

theorem endsMark_of_isWordChar {x : Char} (h : isWordChar x = true) : endsMark (some x) = false := by
  have hne : ∀ {y : Char}, isWordChar y = false → x ≠ y := isWordChar_ne h
  simp [endsMark, isBreak, @hne '\n' rfl, @hne '\r' rfl, @hne '\x85' rfl, @hne '\u2028' rfl, @hne '\u2029' rfl,
    @hne ' ' rfl, @hne '\t' rfl]

theorem isWord_cons {w : List Char} (h : isWord w = true) :
    (∀ x ∈ w, isWordChar x = true) ∧ ∃ x more, w = x :: more := by
  unfold isWord at h
  rw [Bool.and_eq_true, List.all_eq_true] at h
  cases w with
  | nil => cases h.2
  | cons x more => exact ⟨h.1, x, more, rfl⟩

namespace Plain

/-- A word is read up to its end. -/
theorem runLength_word {w rest : List Char} (hw : ∀ x ∈ w, isWordChar x = true) (hrest : Ends rest) :
    runLength true (w ++ rest) = w.length := by
  induction w with
  | nil =>
    rcases hrest.cases with ⟨_, rfl, -⟩ | ⟨_, rfl, -⟩ | ⟨y, _, rfl, -, hy⟩
    · rfl
    · rfl
    · rcases hy with rfl | rfl | rfl <;> simp [runLength]
  | cons x w ih =>
    have hx := hw x List.mem_cons_self
    have hne : ∀ {y : Char}, isWordChar y = false → x ≠ y := isWordChar_ne hx
    rw [List.cons_append, runLength, if_neg, ih fun z hz => hw z (List.mem_cons_of_mem x hz)]
    · rfl
    · simp [endsMark_of_isWordChar hx, @hne ':' rfl, @hne ',' rfl, @hne '?' rfl, @hne '[' rfl, @hne ']' rfl,
        @hne '\x7b' rfl, @hne '\x7d' rfl]

/-- Behind the first line break all blanks are passed. -/
theorem breaks_eq {fuel : Nat} : ∀ (acc : List Char) {c : Cursor}, Ends c.rest → c.rest.length ≤ fuel →
    ∃ more c', breaks fuel c acc = (some more, c') ∧ c'.rest = c.rest.dropWhile isBlank := by
  induction fuel with
  | zero =>
    intro acc c h hfuel
    rw [List.length_eq_zero_iff.1 (Nat.le_zero.1 hfuel)] at h
    obtain ⟨y, more, hdrop, -⟩ := h
    cases hdrop
  | succ fuel ih =>
    intro acc c h hfuel
    have hnext : ∀ {x : Char} {after : List Char}, c.rest = x :: after →
        c.next.rest = after ∧ c.next.rest.length ≤ fuel := by
      intro x after hrest
      rw [hrest] at hfuel
      rw [Cursor.rest_next, hrest]
      exact ⟨rfl, Nat.le_of_succ_le_succ hfuel⟩
    rw [breaks, Cursor.peek]
    rcases h.cases with ⟨after, hrest, hafter⟩ | ⟨after, hrest, hafter⟩ | ⟨y, more, hrest, hdrop, hy⟩
    · obtain ⟨hnext, hfuel⟩ := hnext hrest
      obtain ⟨more, c', hbreaks, hc'⟩ := ih acc (hnext.symm ▸ hafter) hfuel
      rw [hrest, List.head?_cons, if_pos rfl, hbreaks]
      exact ⟨more, c', rfl, by rw [hc', hnext]; rfl⟩
    · obtain ⟨hnext, hfuel⟩ := hnext hrest
      have hends : Ends c.next.rest := hnext.symm ▸ hafter
      obtain ⟨more, c', hbreaks, hc'⟩ := ih ('\n' :: acc) hends hfuel
      rw [Cursor.lineBreak?_newline hrest, hrest, List.head?_cons, if_neg (by decide)]
      dsimp only
      rw [if_neg (by rw [hends.not_atDocumentMark]; exact Bool.false_ne_true), hbreaks]
      exact ⟨more, c', rfl, by rw [hc', hnext]; rfl⟩
    · have hbreak : isBreak y = false := by rcases hy with rfl | rfl | rfl <;> rfl
      have hspace : y ≠ ' ' := by rcases hy with rfl | rfl | rfl <;> decide
      rw [Cursor.lineBreak?_eq_none hrest hbreak, if_neg (by rw [hrest]; simpa using hspace)]
      exact ⟨_, c, rfl, hdrop.symm⟩

/-- The white space behind a word is passed. -/
theorem spaces_eq {c : Cursor} (h : Ends c.rest) :
    ∃ between broken c', spaces c = (between, broken, c') ∧ c'.rest = c.rest.dropWhile isBlank := by
  have hleft : (c.skip (c.rest.takeWhile (· = ' ')).length).rest = c.rest.dropWhile (· = ' ') :=
    Cursor.rest_skipWhile _ _
  have hhead := List.head?_dropWhile_not (· = ' ') c.rest
  have hends : Ends (c.rest.dropWhile (· = ' ')) := by rwa [Ends, ← dropWhile_isBlank]
  rw [dropWhile_isBlank]
  generalize c.rest.dropWhile (· = ' ') = left at *
  simp only [spaces, Cursor.span]
  generalize c.skip (c.rest.takeWhile (· = ' ')).length = c₁ at *
  subst hleft
  rcases hends.cases with ⟨after, hrest, -⟩ | ⟨after, hrest, hafter⟩ | ⟨y, more, hrest, hsame, hy⟩
  · rw [hrest] at hhead
    simp at hhead
  · have hnext : c₁.next.rest = after := by
      rw [Cursor.rest_next, hrest]
      rfl
    have hends' : Ends c₁.next.rest := hnext.symm ▸ hafter
    obtain ⟨more, c', hbreaks, hc'⟩ := breaks_eq [] hends' (Nat.le_refl _)
    have hc'' : c'.rest = c₁.rest.dropWhile isBlank := by
      rw [hc', hnext, hrest]
      rfl
    simp only [Cursor.lineBreak?_newline hrest, hends'.not_atDocumentMark, Bool.false_eq_true, if_false, hbreaks,
      ne_eq, not_true_eq_false]
    split
    · exact ⟨_, _, _, rfl, hc''⟩
    · exact ⟨_, _, _, rfl, hc''⟩
  · have hbreak : isBreak y = false := by rcases hy with rfl | rfl | rfl <;> rfl
    rw [Cursor.lineBreak?_eq_none hrest hbreak]
    exact ⟨_, _, _, rfl, hsame.symm⟩

/-- **A word** is read as its text. -/
theorem read_word {c : Cursor} {w rest : List Char} (h : c.rest = w ++ rest) (hw : isWord w = true) (hrest : Ends rest)
    (indent : Int) : ∃ broken c', read true indent c = (String.ofList w, broken, c') ∧
      c'.rest = rest.dropWhile isBlank := by
  obtain ⟨hchars, x, more, hcons⟩ := isWord_cons hw
  have hbehind : (c.skip w.length).rest = rest := by rw [Cursor.rest_skip, h, List.drop_left]
  have hlength : runLength true c.rest = w.length := by rw [h, runLength_word hchars hrest]
  obtain ⟨between, broken, c', hspaces, hc'⟩ := spaces_eq (c := c.skip w.length) (hbehind.symm ▸ hrest)
  rw [hbehind] at hc'
  obtain ⟨y, after, hdrop, hy⟩ := hrest
  have hend : runLength true c'.rest = 0 := by
    rw [hc', hdrop]
    rcases hy with rfl | rfl | rfl <;> simp [runLength]
  have hfuel : ∃ fuel, c.rest.length = fuel + 2 := by
    have : rest ≠ [] := by
      rintro rfl
      cases hdrop
    have := List.length_pos_iff.2 this
    exact ⟨c.rest.length - 2, by rw [h, hcons, List.length_append, List.length_cons]; omega⟩
  obtain ⟨fuel, hfuel⟩ := hfuel
  have hstart : (c.peek = some '#' || w.length = 0) = false := by
    have hsharp : x ≠ '#' := isWordChar_ne (hchars x (hcons ▸ List.mem_cons_self)) rfl
    simp [Cursor.peek, h, hcons, hsharp]
  refine ⟨broken, c', ?_, hc'⟩
  rw [read, hfuel, runs, hlength, hstart, hspaces]
  simp only [Bool.false_eq_true, if_false, h, List.take_left, List.append_nil, List.reverse_nil]
  split
  · rw [List.reverse_reverse]
  · rw [runs, hend]
    simp

end Plain

end SchemaClosure.Yaml
