import Mathlib.Data.List.Infix
import SchemaClosure.Text.Pieces

/-!
# Occurrences of a word

Cutting at a word finds its first occurrence (`Chars.cutAt?_eq_some_iff`), and fails iff there is none.

Replacing a word cuts the text at its occurrences into pieces that do not hold it and puts the new text between them
(`Chars.Replaced`, `Chars.replaced_replace`). For a word whose first character does not occur in it again there is one
such cut only, so that this determines the result (`Chars.replaced_iff`).
-/

namespace SchemaClosure.Chars

variable {word new s t : List Char}

/-! ## The first occurrence -/

theorem dropWord?_eq_some_iff {after : List Char} : dropWord? word s = some after ↔ s = word ++ after := by
  induction word generalizing s with
  | nil => simp [dropWord?]
  | cons w word ih =>
    cases s with
    | nil => simp [dropWord?]
    | cons x xs =>
      rw [dropWord?, List.cons_append, List.cons.injEq]
      split
      · rename_i hw
        rw [ih, eq_comm (a := x)]
        exact (and_iff_right hw).symm
      · rename_i hw
        exact iff_of_false (by simp) fun h => hw h.1.symm

theorem dropWord?_eq_none_iff : dropWord? word s = none ↔ ¬ word <+: s := by
  constructor
  · rintro h ⟨after, hafter⟩
    rw [dropWord?_eq_some_iff.2 hafter.symm] at h
    cases h
  · intro h
    by_contra hsome
    obtain ⟨after, hafter⟩ := Option.ne_none_iff_exists'.1 hsome
    exact h ⟨after, (dropWord?_eq_some_iff.1 hafter).symm⟩

/-- A word stands at a place for the first time: no occurrence of it starts further in front. -/
structure FirstAt (word s before after : List Char) : Prop where
  eq : s = before ++ word ++ after
  first : ¬ word <:+: before ++ word.dropLast

theorem dropLast_length_lt (hne : word ≠ []) : word.dropLast.length < word.length := by
  have := List.length_pos_of_ne_nil hne
  rw [List.length_dropLast]
  omega

theorem firstAt_nil (hne : word ≠ []) {after : List Char} : FirstAt word s [] after ↔ s = word ++ after := by
  refine ⟨fun h => by simpa using h.eq, fun h => ⟨by simpa using h, fun hoccurs => ?_⟩⟩
  have := hoccurs.length_le
  have := dropLast_length_lt hne
  simp only [List.nil_append] at *
  omega

/-- What is in front of the end of the first occurrence. -/
theorem FirstAt.front {before after : List Char} (h : FirstAt word s before after) : before ++ word.dropLast <+: s := by
  rw [h.eq, List.append_assoc]
  exact (List.prefix_append_right_inj _).2 ((List.dropLast_prefix _).trans (List.prefix_append _ _))

/-- A word at the start of the text is there before any later place is reached. -/
theorem FirstAt.before_eq_nil {before after : List Char} (hne : word ≠ []) (h : FirstAt word s before after)
    (hstarts : word <+: s) : before = [] := by
  by_contra hbefore
  have hlength : word.length ≤ (before ++ word.dropLast).length := by
    have := List.length_pos_of_ne_nil hne
    have := List.length_pos_of_ne_nil hbefore
    rw [List.length_append, List.length_dropLast]
    omega
  exact h.first (List.prefix_of_prefix_length_le hstarts h.front hlength).isInfix

/-- The first occurrence behind a character, when the word does not stand in front of it. -/
theorem firstAt_cons_iff {x : Char} {xs before after : List Char} (h : ¬ word <+: x :: xs) :
    FirstAt word (x :: xs) (x :: before) after ↔ FirstAt word xs before after := by
  constructor
  · intro hfirst
    refine ⟨by simpa using hfirst.eq, fun hoccurs => hfirst.first ?_⟩
    rw [List.cons_append, List.infix_cons_iff]
    exact .inr hoccurs
  · intro hfirst
    refine ⟨by simp [hfirst.eq], fun hoccurs => ?_⟩
    rw [List.cons_append, List.infix_cons_iff] at hoccurs
    rcases hoccurs with hstarts | hoccurs
    · exact h (hstarts.trans (List.cons_prefix_cons.2 ⟨rfl, hfirst.front⟩))
    · exact hfirst.first hoccurs

/-- **Cutting at a word** finds where it stands for the first time. -/
theorem cutAt?_eq_some_iff (hne : word ≠ []) {before after : List Char} :
    cutAt? word s = some (before, after) ↔ FirstAt word s before after := by
  induction s generalizing before with
  | nil =>
    rw [cutAt?, if_neg (by simpa using hne)]
    refine iff_of_false (by simp) fun h => ?_
    have := h.eq
    simp [hne] at this
  | cons x xs ih =>
    rw [cutAt?]
    cases hdrop : dropWord? word (x :: xs) with
    | some rest =>
      have heq := dropWord?_eq_some_iff.1 hdrop
      dsimp only
      rw [Option.some.injEq, Prod.mk.injEq]
      cases before with
      | nil =>
        rw [firstAt_nil hne, heq, List.append_cancel_left_eq]
        simp
      | cons y before =>
        exact iff_of_false (by simp) fun h => List.cons_ne_nil _ _ (h.before_eq_nil hne ⟨rest, heq.symm⟩)
    | none =>
      have hnone := dropWord?_eq_none_iff.1 hdrop
      dsimp only
      rw [Option.map_eq_some_iff]
      constructor
      · rintro ⟨⟨front, rest⟩, hcut, heq⟩
        cases heq
        exact (firstAt_cons_iff hnone).2 (ih.1 hcut)
      · intro h
        cases before with
        | nil => exact absurd ⟨after, by simpa using h.eq.symm⟩ hnone
        | cons y before =>
          obtain rfl : x = y := by
            have := h.eq
            simp only [List.cons_append, List.cons.injEq] at this
            exact this.1
          exact ⟨(before, after), ih.2 ((firstAt_cons_iff hnone).1 h), rfl⟩

theorem cutAt?_eq_none_iff (hne : word ≠ []) : cutAt? word s = none ↔ ¬ word <:+: s := by
  induction s with
  | nil => simp [cutAt?, hne]
  | cons x xs ih =>
    rw [cutAt?, List.infix_cons_iff, not_or]
    cases hdrop : dropWord? word (x :: xs) with
    | some rest =>
      have heq := dropWord?_eq_some_iff.1 hdrop
      exact iff_of_false (by simp) fun h => h.1 ⟨rest, heq.symm⟩
    | none => simp [← ih, dropWord?_eq_none_iff.1 hdrop]

/-- A word that occurs occurs for a first time. -/
theorem exists_firstAt (hne : word ≠ []) (h : word <:+: s) : ∃ before after, FirstAt word s before after := by
  have hsome : cutAt? word s ≠ none := fun hnone => (cutAt?_eq_none_iff hne).1 hnone h
  obtain ⟨⟨before, after⟩, hcut⟩ := Option.ne_none_iff_exists'.1 hsome
  exact ⟨before, after, (cutAt?_eq_some_iff hne).1 hcut⟩

/-! ## Every occurrence -/

/-- One text is the other one with a new text in place of every occurrence of a word: the pieces between the occurrences
stay, and the word does not occur in them. -/
def Replaced (word new s t : List Char) : Prop :=
  ∃ pieces, pieces ≠ [] ∧ (∀ piece ∈ pieces, ¬ word <:+: piece) ∧ s = word.intercalate pieces ∧
    t = new.intercalate pieces

theorem replaceFrom_skip (word new : List Char) {passed : List Char} {skip : Nat} (h : passed.length = skip)
    (s : List Char) : replaceFrom word new skip (passed ++ s) = replaceFrom word new 0 s := by
  induction passed generalizing skip with
  | nil => rw [← h]; rfl
  | cons x passed ih =>
    rw [← h, List.length_cons, List.cons_append, replaceFrom]
    exact ih rfl

theorem replace_append (hne : word ≠ []) (s : List Char) : replace word new (word ++ s) = new ++ replace word new s := by
  obtain ⟨w, rest, rfl⟩ := List.exists_cons_of_ne_nil hne
  have hstarts : (w :: rest).isPrefixOf (w :: (rest ++ s)) = true := by simp
  rw [replace, List.cons_append, replaceFrom, hstarts, if_pos (by rfl), List.length_cons, Nat.add_sub_cancel,
    replaceFrom_skip _ _ rfl, replace]

theorem replace_cons {x : Char} {xs : List Char} (h : ¬ word <+: x :: xs) :
    replace word new (x :: xs) = x :: replace word new xs := by
  have hstarts : word.isPrefixOf (x :: xs) = false := by
    rw [← Bool.not_eq_true, List.isPrefixOf_iff_prefix]
    exact h
  rw [replace, replaceFrom, hstarts]
  rfl

theorem replace_of_absent (h : ¬ word <:+: s) : replace word new s = s := by
  induction s with
  | nil => rfl
  | cons x xs ih =>
    rw [List.infix_cons_iff, not_or] at h
    rw [replace_cons h.1, ih h.2]

/-- The first occurrence is replaced first. -/
theorem replace_of_firstAt (hne : word ≠ []) {before after : List Char} (h : FirstAt word s before after) :
    replace word new s = before ++ new ++ replace word new after := by
  induction before generalizing s with
  | nil => rw [(firstAt_nil hne).1 h, replace_append hne, List.nil_append]
  | cons x before ih =>
    have heq := h.eq
    simp only [List.cons_append] at heq
    have hstarts : ¬ word <+: x :: (before ++ word ++ after) := by
      intro hstarts
      have hcut : cutAt? word (x :: (before ++ word ++ after)) = some (x :: before, after) :=
        (cutAt?_eq_some_iff hne).2 (heq ▸ h)
      obtain ⟨rest, hrest⟩ := hstarts
      rw [cutAt?, dropWord?_eq_some_iff.2 hrest.symm] at hcut
      cases hcut
    rw [heq, replace_cons hstarts, ih ((firstAt_cons_iff hstarts).1 (heq ▸ h))]
    rfl

/-- **Replacing a word** leaves the pieces between its occurrences. -/
theorem replaced_replace (hne : word ≠ []) (new s : List Char) : Replaced word new s (replace word new s) := by
  induction hlength : s.length using Nat.strongRecOn generalizing s with
  | _ n ih =>
    subst hlength
    by_cases hoccurs : word <:+: s
    · obtain ⟨before, after, hfirst⟩ := exists_firstAt hne hoccurs
      have hless : after.length < s.length := by
        have := List.length_pos_of_ne_nil hne
        rw [hfirst.eq]
        simp only [List.length_append]
        omega
      obtain ⟨pieces, hpieces, hfree, hafter, hreplaced⟩ := ih _ hless after rfl
      obtain ⟨piece, rest, rfl⟩ := List.exists_cons_of_ne_nil hpieces
      refine ⟨before :: piece :: rest, by simp, ?_, ?_, ?_⟩
      · rw [List.forall_mem_cons]
        exact ⟨fun h => hfirst.first (h.trans (List.prefix_append _ _).isInfix), hfree⟩
      · rw [List.intercalate_cons_cons, ← hafter, hfirst.eq]
      · rw [List.intercalate_cons_cons, ← hreplaced, replace_of_firstAt hne hfirst]
    · exact ⟨[s], by simp, by simpa using hoccurs, by simp, by simp [replace_of_absent hoccurs]⟩

/-- A word whose first character does not occur in it again stands behind a piece without it for the first time. -/
theorem firstAt_of_piece {c : Char} {rest piece : List Char} (hc : c ∉ rest) (hfree : ¬ c :: rest <:+: piece)
    (after : List Char) : FirstAt (c :: rest) (piece ++ c :: rest ++ after) piece after := by
  refine ⟨rfl, fun hoccurs => ?_⟩
  have hshort := dropLast_length_lt (List.cons_ne_nil c rest)
  rcases List.infix_append_iff.1 hoccurs with h | h | ⟨front, back, hsplit, hfront, hback⟩
  · exact hfree h
  · exact absurd h.length_le (not_le.2 hshort)
  · cases front with
    | nil =>
      rw [List.nil_append] at hsplit
      rw [← hsplit] at hback
      exact absurd hback.length_le (not_le.2 hshort)
    | cons x front =>
      rw [List.cons_append, List.cons.injEq] at hsplit
      cases back with
      | nil =>
        rw [List.append_nil] at hsplit
        rw [hsplit.1, hsplit.2] at hfree
        exact hfree hfront.isInfix
      | cons y back =>
        -- what stands in the next occurrence starts like the word
        obtain ⟨rfl, -⟩ := List.cons_prefix_cons.1 (hback.trans (List.dropLast_prefix _))
        exact hc (by rw [hsplit.2]; simp)

/-- **What replacing gives** is determined by the pieces between the occurrences. -/
theorem replaced_iff {c : Char} {rest : List Char} (hc : c ∉ rest) :
    Replaced (c :: rest) new s t ↔ t = replace (c :: rest) new s := by
  constructor
  · rintro ⟨pieces, hpieces, hfree, rfl, rfl⟩
    induction pieces with
    | nil => exact absurd rfl hpieces
    | cons piece pieces ih =>
      rw [List.forall_mem_cons] at hfree
      cases pieces with
      | nil => simp [replace_of_absent hfree.1]
      | cons next pieces =>
        have ih := ih (by simp) hfree.2
        rw [List.intercalate_cons_cons, List.intercalate_cons_cons,
          replace_of_firstAt (by simp) (firstAt_of_piece hc hfree.1 _), ← ih]
  · rintro rfl
    exact replaced_replace (by simp) new s

theorem mem_of_mem_replaceFrom {c : Char} {skip : Nat} (h : c ∈ replaceFrom word new skip s) : c ∈ new ∨ c ∈ s := by
  induction s generalizing skip with
  | nil => cases skip <;> cases h
  | cons x xs ih =>
    cases skip with
    | succ skip => exact (ih h).imp_right (List.mem_cons_of_mem x)
    | zero =>
      rw [replaceFrom] at h
      split at h
      · rcases List.mem_append.1 h with h | h
        · exact .inl h
        · exact (ih h).imp_right (List.mem_cons_of_mem x)
      · rcases List.mem_cons.1 h with rfl | h
        · exact .inr List.mem_cons_self
        · exact (ih h).imp_right (List.mem_cons_of_mem x)

/-- What stands in the result was in the text or is new. -/
theorem mem_of_mem_replace {c : Char} (h : c ∈ replace word new s) : c ∈ new ∨ c ∈ s := mem_of_mem_replaceFrom h

end SchemaClosure.Chars
