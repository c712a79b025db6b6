import SchemaClosure.Yaml.Cursor

/-!
# Passing characters

What is known of a place behind `n` characters: what is left there (`rest_skip`), its number (`index_skip`),
and its line as long as no line has ended (`line_skip`). Reading that passes a stretch of text is described by
such a place.
-/

namespace SchemaClosure.Yaml

namespace Cursor

theorem rest_next (c : Cursor) : c.next.rest = c.rest.drop 1 := by
  unfold next
  split
  · rename_i h
    rw [h]
    rfl
  · rename_i h
    rw [h]
    split <;> rfl

@[simp] theorem rest_skip (n : Nat) (c : Cursor) : (c.skip n).rest = c.rest.drop n := by
  induction n generalizing c with
  | zero => rfl
  | succ n ih => rw [skip, ih, rest_next, List.drop_drop, Nat.add_comm]

theorem skip_skip (m n : Nat) (c : Cursor) : (c.skip m).skip n = c.skip (m + n) := by
  induction m generalizing c with
  | zero => rw [skip, Nat.zero_add]
  | succ m ih => rw [Nat.succ_add, skip, ih, skip]

theorem next_eq_skip (c : Cursor) : c.next = c.skip 1 := rfl

theorem index_skip {n : Nat} {c : Cursor} (h : n ≤ c.rest.length) : (c.skip n).index = c.index + n := by
  induction n generalizing c with
  | zero => rfl
  | succ n ih =>
    have hnext : c.next.index = c.index + 1 := by
      unfold next
      split
      · rename_i hnil
        rw [hnil] at h
        cases h
      · split <;> rfl
    rw [skip, ih (by rw [rest_next, List.length_drop]; omega), hnext]
    omega

theorem line_skip {n : Nat} {c : Cursor} (h : ∀ x ∈ c.rest.take n, isBreak x = false) :
    (c.skip n).line = c.line := by
  induction n generalizing c with
  | zero => rfl
  | succ n ih =>
    have hnext : c.next.line = c.line := by
      unfold next
      split
      · rfl
      · rename_i x rest hcons
        rw [hcons] at h
        rw [h x (by simp)]
        rfl
    rw [skip, ih, hnext]
    intro x hx
    rw [rest_next] at hx
    refine h x ?_
    rw [List.take_drop] at hx
    rw [Nat.add_comm]
    exact List.mem_of_mem_drop hx

theorem skipWhile_eq (p : Char → Bool) (c : Cursor) : c.skipWhile p = c.skip (c.rest.takeWhile p).length := rfl

theorem drop_length_takeWhile (p : Char → Bool) (s : List Char) :
    s.drop (s.takeWhile p).length = s.dropWhile p := by
  induction s with
  | nil => rfl
  | cons x rest ih =>
    by_cases h : p x
    · rw [List.takeWhile_cons_of_pos h, List.dropWhile_cons_of_pos h, List.length_cons, List.drop_succ_cons, ih]
    · rw [List.takeWhile_cons_of_neg h, List.dropWhile_cons_of_neg h]
      rfl

theorem rest_skipWhile (p : Char → Bool) (c : Cursor) : (c.skipWhile p).rest = c.rest.dropWhile p := by
  rw [skipWhile_eq, rest_skip, drop_length_takeWhile]

theorem lineBreak?_eq_none {c : Cursor} {y : Char} {rest : List Char} (h : c.rest = y :: rest)
    (hy : isBreak y = false) : c.lineBreak? = none := by
  have hreturn : y ≠ '\r' := by
    rintro rfl
    cases hy
  have hfar : y ≠ '\u2028' ∧ y ≠ '\u2029' := by
    constructor <;>
    · rintro rfl
      cases hy
  unfold Cursor.lineBreak?
  split
  · rename_i hcons
    rw [h, List.cons.injEq] at hcons
    exact absurd hcons.1 hreturn
  · rename_i hcons
    rw [h, List.cons.injEq] at hcons
    obtain ⟨rfl, -⟩ := hcons
    simp [hfar, hy]
  · rfl

theorem lineBreak?_newline {c : Cursor} {rest : List Char} (h : c.rest = '\n' :: rest) :
    c.lineBreak? = some ('\n', c.next) := by
  rw [lineBreak?, h]
  rfl

end Cursor

end SchemaClosure.Yaml
