import SchemaClosure.Proofs.Text.Joining

/-!
# Dotted names

A path of names joined by dots, and a dotted name cut at its dots. Cutting after joining gives the path
back when no name holds a dot (`pieces_join`); joining after cutting always gives the name back
(`join_pieces`).
-/

namespace SchemaClosure

namespace Chars

theorem splitLast?_eq_none_iff {c : Char} {s : List Char} : splitLast? c s = none ↔ c ∉ s := by
  induction s with
  | nil => simp [splitLast?]
  | cons x xs ih =>
    rw [splitLast?, List.mem_cons, not_or, ← ih]
    cases splitLast? c xs with
    | some parts => simp
    | none => simp [eq_comm]

theorem splitLast?_eq_some {c : Char} {s before after : List Char} (h : splitLast? c s = some (before, after)) :
    s = before ++ c :: after ∧ c ∉ after := by
  induction s generalizing before with
  | nil => cases h
  | cons x xs ih =>
    rw [splitLast?] at h
    cases hxs : splitLast? c xs with
    | some parts =>
      rw [hxs] at h
      cases h
      obtain ⟨heq, hafter⟩ := ih hxs
      exact ⟨by rw [heq, List.cons_append], hafter⟩
    | none =>
      rw [hxs] at h
      dsimp only at h
      split at h
      · rename_i hx
        cases h
        exact ⟨by rw [hx, List.nil_append], splitLast?_eq_none_iff.1 hxs⟩
      · cases h

/-- A separator cuts what is before it from what is behind it. -/
theorem split_append (c : Char) (before after : List Char) :
    split c (before ++ c :: after) = split c before ++ split c after := by
  induction before with
  | nil => simp [split]
  | cons x xs ih =>
    rw [List.cons_append, split, split, ih]
    split
    · rfl
    · cases hs : split c xs with
      | nil => exact absurd hs (split_ne_nil c xs)
      | cons p ps => rfl

end Chars

namespace Text

theorem toList_join_dot (ps : List String) :
    (join "." ps).toList = Chars.join '.' (ps.map String.toList) := by
  match ps with
  | [] => rfl
  | [p] => rfl
  | p :: q :: rest =>
    have ih := toList_join_dot (q :: rest)
    simp only [List.map_cons] at ih
    simp [join, Chars.join, ih]

/-- Cutting a dotted name gives the path back from which it was made. -/
theorem pieces_join {ps : List String} (hne : ps ≠ []) (h : ∀ p ∈ ps, '.' ∉ p.toList) :
    pieces '.' (join "." ps) = ps := by
  have hsplit : Chars.split '.' (join "." ps).toList = ps.map String.toList := by
    rw [toList_join_dot]
    apply Chars.split_join (by simpa using hne)
    simpa using h
  rw [pieces, hsplit]
  simp [Function.comp_def]

theorem join_pieces (s : String) : join "." (pieces '.' s) = s := by
  apply String.toList_inj.1
  rw [toList_join_dot, pieces]
  simp [Function.comp_def, Chars.join_split]

theorem pieces_ne_nil (s : String) : pieces '.' s ≠ [] := by
  simpa [pieces] using Chars.split_ne_nil '.' s.toList

theorem not_mem_dot_of_mem_pieces {s p : String} (hp : p ∈ pieces '.' s) : '.' ∉ p.toList := by
  obtain ⟨piece, hpiece, rfl⟩ := List.mem_map.1 hp
  rw [String.toList_ofList]
  exact Chars.not_mem_of_mem_split hpiece

/-- The pieces of a name that continues a path are the path and what comes behind it. -/
theorem pieces_continued {path : List String} (hne : path ≠ []) (h : ∀ p ∈ path, '.' ∉ p.toList)
    (rest : String) : pieces '.' (join "." path ++ "." ++ rest) = path ++ pieces '.' rest := by
  have hjoin : join "." path ++ "." ++ rest = join "." (path ++ pieces '.' rest) := by
    rw [join_append hne (pieces_ne_nil rest), join_pieces]
  rw [hjoin]
  refine pieces_join (by simp [hne]) fun p hp => ?_
  rcases List.mem_append.1 hp with hp | hp
  · exact h p hp
  · exact not_mem_dot_of_mem_pieces hp

/-- A path of names without dots is where a dotted name starts iff it spells the name or the name goes on
behind it with a dot. -/
theorem prefix_pieces_iff {path : List String} (hne : path ≠ []) (h : ∀ p ∈ path, '.' ∉ p.toList)
    {s : String} :
    path <+: pieces '.' s ↔ s = join "." path ∨ ∃ rest, s = join "." path ++ "." ++ rest := by
  constructor
  · rintro ⟨rest, hrest⟩
    have hs : s = join "." (path ++ rest) := by rw [hrest, join_pieces]
    by_cases hnil : rest = []
    · subst hnil
      exact .inl (by rw [hs, List.append_nil])
    · exact .inr ⟨join "." rest, by rw [hs, join_append hne hnil]⟩
  · rintro (rfl | ⟨rest, rfl⟩)
    · simp [pieces_join hne h]
    · simp [pieces_continued hne h]

/-- A name without a dot is its only piece. -/
theorem pieces_of_cutLast?_eq_none {s : String} (h : cutLast? '.' s = none) : pieces '.' s = [s] := by
  rw [cutLast?, Option.map_eq_none_iff, Chars.splitLast?_eq_none_iff] at h
  simp [pieces, Chars.split_of_not_mem h]

/-- What stands behind the last dot of a name is its last piece. -/
theorem pieces_of_cutLast?_eq_some {s before after : String} (h : cutLast? '.' s = some (before, after)) :
    pieces '.' s = pieces '.' before ++ [after] := by
  obtain ⟨⟨front, back⟩, hparts, heq⟩ := Option.map_eq_some_iff.1 h
  cases heq
  obtain ⟨hs, hback⟩ := Chars.splitLast?_eq_some hparts
  simp [pieces, hs, Chars.split_append, Chars.split_of_not_mem hback]

/-- A dot in front of a name is an empty piece in front of its pieces. -/
theorem pieces_of_dropWord?_eq_some {s : String} {rest : List Char} (h : Chars.dropWord? ['.'] s.toList = some rest) :
    pieces '.' s = "" :: pieces '.' (String.ofList rest) := by
  cases hs : s.toList with
  | nil => simp [hs, Chars.dropWord?] at h
  | cons x xs =>
    rw [hs, Chars.dropWord?] at h
    split at h
    · rename_i hx
      simp only [Chars.dropWord?, Option.some.injEq] at h
      simp [pieces, hs, ← hx, h, Chars.split]
    · cases h

/-- Without a dot in front the first piece is empty only if the name is. -/
theorem pieces_of_dropWord?_eq_none {s : String} (h : Chars.dropWord? ['.'] s.toList = none) (name : String)
    (rest : List String) : pieces '.' s ≠ "" :: name :: rest := by
  rw [pieces]
  cases hs : s.toList with
  | nil => simp [Chars.split]
  | cons x xs =>
    have hx : x ≠ '.' := by
      rintro rfl
      simp [hs, Chars.dropWord?] at h
    rw [Chars.split, if_neg hx]
    cases Chars.split '.' xs <;> simp [← String.toList_inj]

theorem startsWith_iff {start s : String} : startsWith start s = true ↔ ∃ rest, s = start ++ rest := by
  simp only [startsWith, List.isPrefixOf_iff_prefix]
  constructor
  · rintro ⟨rest, h⟩
    exact ⟨String.ofList rest, String.toList_inj.1 (by simp [h])⟩
  · rintro ⟨rest, rfl⟩
    simp

end Text

end SchemaClosure
