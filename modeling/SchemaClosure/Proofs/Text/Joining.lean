import SchemaClosure.Text.Pieces

/-!
# Joined texts

What `Text.join` does to lists that are put together or nested, and which characters stand in a joined text.
-/

namespace SchemaClosure.Text

theorem join_append {separator : String} : ∀ {a b : List String}, a ≠ [] → b ≠ [] →
    join separator (a ++ b) = join separator a ++ separator ++ join separator b
  | [_], _ :: _, _, _ => by simp [join]
  | p :: q :: rest, b, _, hb => by
    have ih : join separator (q :: rest ++ b) = join separator (q :: rest) ++ separator ++ join separator b :=
      join_append (by simp) hb
    simp only [List.cons_append] at ih ⊢
    simp only [join, ih, String.append_assoc]

/-- One more name at the end of a path. -/
theorem join_concat {separator : String} {path : List String} (hne : path ≠ []) (name : String) :
    join separator (path ++ [name]) = join separator path ++ separator ++ name :=
  join_append hne (by simp)

theorem join_cons {separator : String} (first : String) {rest : List String} (hne : rest ≠ []) :
    join separator (first :: rest) = first ++ separator ++ join separator rest :=
  join_append (a := [first]) (by simp) hne

/-- A piece that is joined itself can be joined with what stands around it. -/
theorem join_inner {separator : String} (a b : List String) {piece : List String} (hne : piece ≠ []) :
    join separator (a ++ join separator piece :: b) = join separator (a ++ (piece ++ b)) := by
  have htail : join separator (join separator piece :: b) = join separator (piece ++ b) := by
    by_cases hb : b = []
    · rw [hb, List.append_nil, join]
    · rw [join_cons _ hb, join_append hne hb]
  by_cases ha : a = []
  · rw [ha, List.nil_append, List.nil_append, htail]
  · rw [join_append ha (by simp), htail, join_append ha (by simp [hne])]

theorem join_flatten {separator : String} (a : List String) {pieces : List (List String)}
    (h : ∀ piece ∈ pieces, piece ≠ []) :
    join separator (a ++ pieces.map (join separator)) = join separator (a ++ pieces.flatten) := by
  induction pieces generalizing a with
  | nil => rfl
  | cons piece rest ih =>
    rw [List.forall_mem_cons] at h
    rw [List.map_cons, List.flatten_cons, List.append_cons, ih _ h.2, List.append_assoc, List.singleton_append,
      join_inner _ _ h.1]

theorem mem_join {separator : String} {l : List String} {c : Char} (h : c ∈ (join separator l).toList) :
    c ∈ separator.toList ∨ ∃ s ∈ l, c ∈ s.toList := by
  match l with
  | [] => simp [join] at h
  | [s] => exact .inr ⟨s, by simp, h⟩
  | s :: t :: rest =>
    simp only [join, String.toList_append, List.mem_append] at h
    rcases h with (h | h) | h
    · exact .inr ⟨s, by simp, h⟩
    · exact .inl h
    · rcases mem_join h with h | ⟨u, hu, hc⟩
      · exact .inl h
      · exact .inr ⟨u, List.mem_cons_of_mem _ hu, hc⟩

theorem mem_join_of_mem {separator : String} {l : List String} {s : String} (hs : s ∈ l) {c : Char}
    (hc : c ∈ s.toList) : c ∈ (join separator l).toList := by
  match l with
  | [] => cases hs
  | [t] =>
    rw [List.mem_singleton] at hs
    rwa [join, ← hs]
  | t :: u :: rest =>
    simp only [join, String.toList_append, List.mem_append]
    rcases List.mem_cons.1 hs with rfl | hs
    · exact .inl (.inl hc)
    · exact .inr (mem_join_of_mem hs hc)

end SchemaClosure.Text
