import Mathlib.Data.List.Nodup
import SchemaClosure.Proofs.Text.Dotted
import SchemaClosure.Reach.Prune

/-!
# Sets of reachable names

What `touch` and `insert` do to the names of each namespace and to the list of namespaces. A set that is
built by inserting alone names each namespace once and holds no empty entry (`Filled`).
-/

namespace SchemaClosure

namespace ReachableNames

/-- The namespaces that have an entry, in order. -/
def owners (r : ReachableNames) : List String := r.map Prod.fst

/-- Each namespace has one entry at most, and no entry is empty. -/
structure Filled (r : ReachableNames) : Prop where
  owners_nodup : r.owners.Nodup
  names_ne_nil : ∀ entry ∈ r, entry.2 ≠ []

theorem mem_names_touch {r : ReachableNames} {owner n x : String} :
    x ∈ (r.touch owner).names n ↔ x ∈ r.names n := by
  induction r with
  | nil =>
    by_cases h : owner = n <;> simp [touch, names, h]
  | cons entry rest ih =>
    obtain ⟨m, xs⟩ := entry
    by_cases hm : m = owner
    · simp [touch, hm]
    · by_cases hn : m = n
      · subst hn
        simp [touch, names, hm]
      · simpa [touch, names, hm, hn] using ih

theorem mem_names_insert {r : ReachableNames} {owner name n x : String} :
    x ∈ (r.insert owner name).names n ↔ (n = owner ∧ x = name) ∨ x ∈ r.names n := by
  induction r with
  | nil =>
    by_cases h : owner = n
    · subst h
      simp [insert, names]
    · simp [insert, names, h, Ne.symm h]
  | cons entry rest ih =>
    obtain ⟨m, xs⟩ := entry
    by_cases hm : m = owner
    · subst hm
      by_cases hn : m = n
      · subst hn
        by_cases hx : name ∈ xs
        · simp only [insert, names, if_true, List.contains_eq_mem, hx, decide_true, true_and]
          exact ⟨.inr, fun h => h.elim (fun e => e ▸ hx) id⟩
        · simp [insert, names, hx, or_comm]
      · simp [insert, names, hn, Ne.symm hn]
    · by_cases hn : m = n
      · subst hn
        simp [insert, names, hm]
      · simpa [insert, names, hm, hn] using ih

theorem mem_owners_insert {r : ReachableNames} {owner name n : String} :
    n ∈ (r.insert owner name).owners ↔ n = owner ∨ n ∈ r.owners := by
  induction r with
  | nil => simp [insert, owners]
  | cons entry rest ih =>
    obtain ⟨m, xs⟩ := entry
    by_cases hm : m = owner
    · subst hm
      simp [insert, owners]
    · simp only [insert, hm, if_false, owners, List.map_cons, List.mem_cons] at ih ⊢
      rw [ih]
      exact or_left_comm

theorem filled_nil : Filled [] := ⟨List.nodup_nil, by simp⟩

theorem Filled.insert {r : ReachableNames} (h : r.Filled) (owner name : String) :
    (r.insert owner name).Filled := by
  induction r with
  | nil => exact ⟨by simp [ReachableNames.insert, owners], by simp [ReachableNames.insert]⟩
  | cons entry rest ih =>
    obtain ⟨m, xs⟩ := entry
    obtain ⟨hnodup, hne⟩ := h
    simp only [owners, List.map_cons, List.nodup_cons] at hnodup
    have hrest : Filled rest := ⟨hnodup.2, fun e he => hne e (by simp [he])⟩
    by_cases hm : m = owner
    · subst hm
      refine ⟨by simpa [ReachableNames.insert, owners] using hnodup, fun e he => ?_⟩
      simp only [ReachableNames.insert, if_true, List.mem_cons] at he
      rcases he with rfl | he
      · have hxs : xs ≠ [] := hne (m, xs) (by simp)
        by_cases hx : name ∈ xs <;> simp [hx, hxs]
      · exact hrest.names_ne_nil e he
    · have ih := ih hrest
      refine ⟨?_, fun e he => ?_⟩
      · have hnot : m ∉ owners (ReachableNames.insert owner name rest) := by
          rw [mem_owners_insert]
          exact fun h => h.elim hm hnodup.1
        simpa only [ReachableNames.insert, hm, if_false, owners, List.map_cons, List.nodup_cons]
          using ⟨hnot, ih.owners_nodup⟩
      · simp only [ReachableNames.insert, hm, if_false, List.mem_cons] at he
        rcases he with rfl | he
        · exact hne _ (by simp)
        · exact ih.names_ne_nil e he

theorem mem_owners_of_mem_names {r : ReachableNames} {n x : String} (h : x ∈ r.names n) :
    n ∈ r.owners := by
  induction r with
  | nil => cases h
  | cons entry rest ih =>
    obtain ⟨m, xs⟩ := entry
    by_cases hm : m = n
    · simp [owners, hm]
    · simp only [names, hm, if_false] at h
      exact List.mem_cons_of_mem _ (ih h)

theorem entry_mem_of_mem_owners {r : ReachableNames} {n : String} (h : n ∈ r.owners) :
    (n, r.names n) ∈ r := by
  induction r with
  | nil => cases h
  | cons entry rest ih =>
    obtain ⟨m, xs⟩ := entry
    by_cases hm : m = n
    · simp [names, hm]
    · have hrest : n ∈ owners rest := by simpa [owners, Ne.symm hm] using h
      simpa [names, hm, Ne.symm hm] using ih hrest

/-- In a filled set the namespaces with an entry are those with a name. -/
theorem Filled.mem_owners_iff {r : ReachableNames} (h : r.Filled) {n : String} :
    n ∈ r.owners ↔ ∃ x, x ∈ r.names n := by
  constructor
  · intro hn
    exact List.exists_mem_of_ne_nil _ (h.names_ne_nil _ (entry_mem_of_mem_owners hn))
  · rintro ⟨x, hx⟩
    exact mem_owners_of_mem_names hx

theorem leadsFrom_iff {r : ReachableNames} {fullName : String} :
    r.leadsFrom fullName = true ↔
      ∃ n ∈ r.owners, n = fullName ∨ ∃ rest, n = fullName ++ "." ++ rest := by
  simp only [leadsFrom, List.any_eq_true, Bool.or_eq_true, beq_iff_eq, Text.startsWith_iff, owners,
    List.mem_map, exists_exists_and_eq_and]

end ReachableNames

end SchemaClosure
