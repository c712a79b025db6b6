import Mathlib.Data.List.Lex
import Mathlib.Data.List.Nodup
import Mathlib.Data.List.Pairwise
import Mathlib.Data.Prod.Lex
import Mathlib.Data.Sum.Order
import SchemaClosure.Discovery.NaturalOrder
import SchemaClosure.Proofs.Document.Keys
import SchemaClosure.Proofs.Text.CodePoint

/-!
# The natural order is an order

A key without nans has a rank in a linear order (`NaturalKey.rank`): its parts one after the other, a number by its value
and in front of every text, and the length at last. One key comes before another one iff its rank is smaller
(`NaturalKey.lt_iff`), so two names tie iff their ranks are equal (`tied_iff`), and sorting in the natural order is
sorting by the ranks (`naturalSortBy_eq`). It keeps the values of one rank in their order (`filter_naturalSortBy`), and
there is one list only that goes upwards and does so (`eq_of_pairwise_of_filter`).

Sorting two listings of the same values gives the same ranks at the same places (`forall₂_tied_of_perm`), and it gives
the same list for all listings iff no two of the values tie (`naturalSortBy_listing_iff`): of two that tie, the one that
is listed first stays first.
-/

namespace SchemaClosure

/-! ## Numbers -/

namespace Binary64

/-- The place of a number between the two infinities; a nan has none, and any will do. -/
def rank : Binary64 → WithBot (WithTop ℚ)
  | .nan => ⊥
  | .infinite negative => if negative then ⊥ else ((⊤ : WithTop ℚ) : WithBot (WithTop ℚ))
  | .finite negative m e => ((exact negative m e : WithTop ℚ) : WithBot (WithTop ℚ))

theorem units_lt_iff {a b : Bool} {m n : Nat} {e f : Int} :
    units a m e (min e f) < units b n f (min e f) ↔ exact a m e < exact b n f := by
  have hpow : (0 : ℚ) < 2 ^ min e f := zpow_pos two_pos _
  rw [← units_mul_zpow (min_le_left e f), ← units_mul_zpow (min_le_right e f), mul_lt_mul_iff_left₀ hpow,
    Int.cast_lt]

/-- Numbers other than nans compare like their places. -/
theorem compare?_eq_rank {x y : Binary64} (hx : x ≠ .nan) (hy : y ≠ .nan) :
    x.compare? y = some (compare x.rank y.rank) := by
  rw [LinearOrder.compare_eq_compareOfLessAndEq, compareOfLessAndEq]
  cases x <;> cases y
  case finite.finite a m e b n f =>
    simp [compare?, rank, LinearOrder.compare_eq_compareOfLessAndEq, compareOfLessAndEq, units_lt_iff, units_eq_iff]
  case infinite.infinite a b => cases a <;> cases b <;> simp [compare?, rank]
  case infinite.finite a b n f => cases a <;> simp [compare?, rank, WithBot.bot_lt_coe]
  case finite.infinite a m e b => cases b <;> simp [compare?, rank]
  all_goals simp at hx hy

end Binary64

/-! ## Parts and keys -/

namespace NamePart

/-- The rank of a part: numbers by their value, behind them the texts by their code points. -/
def rank : NamePart → WithBot (WithTop ℚ) ⊕ₗ List Nat
  | .number x => Sum.inlₗ x.rank
  | .text s => Sum.inrₗ (Text.codes s)

/-- The part is no nan. -/
def Ranked (p : NamePart) : Prop := p ≠ .number .nan

instance (p : NamePart) : Decidable p.Ranked := inferInstanceAs (Decidable (p ≠ .number .nan))

end NamePart

namespace NaturalKey

theorem samePart_iff {p q : NamePart} (hp : p.Ranked) (hq : q.Ranked) :
    samePart p q = true ↔ p.rank = q.rank := by
  cases p <;> cases q
  case number.number x y =>
    have hx : x ≠ .nan := fun h => hp (h ▸ rfl)
    have hy : y ≠ .nan := fun h => hq (h ▸ rfl)
    simp [samePart, NamePart.rank, Binary64.compare?_eq_rank hx hy]
  all_goals simp [samePart, NamePart.rank, Text.codes_inj]

theorem partLt_iff {p q : NamePart} (hp : p.Ranked) (hq : q.Ranked) :
    partLt p q = true ↔ p.rank < q.rank := by
  cases p <;> cases q
  case number.number x y =>
    have hx : x ≠ .nan := fun h => hp (h ▸ rfl)
    have hy : y ≠ .nan := fun h => hq (h ▸ rfl)
    simp [partLt, NamePart.rank, Binary64.compare?_eq_rank hx hy, compare_lt_iff_lt]
  all_goals simp [partLt, NamePart.rank]

/-- No part of the key is a nan. -/
def Ranked (k : NaturalKey) : Prop := ∀ p ∈ k.parts, p.Ranked

instance (k : NaturalKey) : Decidable k.Ranked := inferInstanceAs (Decidable (∀ p ∈ k.parts, p.Ranked))

/-- The rank of a key: that of its parts one after the other, and of its length at last. -/
def rank (k : NaturalKey) : List (WithBot (WithTop ℚ) ⊕ₗ List Nat) ×ₗ Nat :=
  toLex (k.parts.map NamePart.rank, k.length)

theorem partsLt_iff {last : Bool} {ps qs : List NamePart} (hps : ∀ p ∈ ps, p.Ranked) (hqs : ∀ q ∈ qs, q.Ranked) :
    partsLt last ps qs = true ↔ ps.map NamePart.rank < qs.map NamePart.rank ∨
      ps.map NamePart.rank = qs.map NamePart.rank ∧ last = true := by
  induction ps generalizing qs with
  | nil => cases qs <;> simp [partsLt]
  | cons p ps ih =>
    cases qs with
    | nil => simp [partsLt]
    | cons q qs =>
      rw [List.forall_mem_cons] at hps hqs
      have hsame := samePart_iff hps.1 hqs.1
      have hlt := partLt_iff hps.1 hqs.1
      rw [partsLt, List.map_cons, List.map_cons, List.cons_lt_cons_iff, List.cons.injEq]
      split
      · rename_i h
        rw [ih hps.2 hqs.2, hsame.1 h]
        simp
      · rename_i h
        have hne : p.rank ≠ q.rank := fun heq => h (hsame.2 heq)
        rw [hlt]
        simp [hne]

theorem forall₂_samePart_iff {ps qs : List NamePart} (hps : ∀ p ∈ ps, p.Ranked) (hqs : ∀ q ∈ qs, q.Ranked) :
    List.Forall₂ (fun p q => samePart p q = true) ps qs ↔ ps.map NamePart.rank = qs.map NamePart.rank := by
  induction ps generalizing qs with
  | nil => cases qs <;> simp
  | cons p ps ih =>
    cases qs with
    | nil => simp
    | cons q qs =>
      rw [List.forall_mem_cons] at hps hqs
      simp [samePart_iff hps.1 hqs.1, ih hps.2 hqs.2]

/-- **A key comes before another one** iff its rank is smaller. -/
theorem lt_iff {a b : NaturalKey} (ha : a.Ranked) (hb : b.Ranked) : a.lt b = true ↔ a.rank < b.rank := by
  rw [lt, partsLt_iff ha hb, rank, rank, Prod.Lex.toLex_lt_toLex]
  simp

end NaturalKey

/-! ## Sorting -/

/-- The rank of a name. -/
def nameRank (name : String) : List (WithBot (WithTop ℚ) ⊕ₗ List Nat) ×ₗ Nat := (NaturalKey.of name).rank

/-- Two names tie: their keys agree in every part and in the length. -/
def Tied (a b : String) : Prop :=
  List.Forall₂ (fun p q => NaturalKey.samePart p q = true) (NaturalKey.of a).parts (NaturalKey.of b).parts ∧
    (NaturalKey.of a).length = (NaturalKey.of b).length

instance (a b : String) : Decidable (Tied a b) := inferInstanceAs (Decidable (_ ∧ _))

/-- **Two names tie** iff they have one rank. -/
theorem tied_iff {a b : String} (ha : (NaturalKey.of a).Ranked) (hb : (NaturalKey.of b).Ranked) :
    Tied a b ↔ nameRank a = nameRank b := by
  rw [Tied, nameRank, nameRank, NaturalKey.rank, NaturalKey.rank, toLex_inj, Prod.mk.injEq,
    NaturalKey.forall₂_samePart_iff ha hb]

/-- A list that goes upwards in rank is determined by what it holds at each rank, in order. -/
theorem eq_of_pairwise_of_filter {α β : Type} [LinearOrder β] [DecidableEq β] (rank : α → β) {a b : List α}
    (ha : a.Pairwise fun v w => rank v ≤ rank w) (hb : b.Pairwise fun v w => rank v ≤ rank w)
    (h : ∀ r, a.filter (fun v => rank v = r) = b.filter fun v => rank v = r) : a = b := by
  have hmem : ∀ v, v ∈ a ↔ v ∈ b := fun v => by simpa using congrArg (v ∈ ·) (h (rank v))
  induction a generalizing b with
  | nil => exact (List.eq_nil_iff_forall_not_mem.2 fun v hv => List.not_mem_nil ((hmem v).2 hv)).symm
  | cons x a ih =>
    cases b with
    | nil => cases (hmem x).1 List.mem_cons_self
    | cons y b =>
      rw [List.pairwise_cons] at ha hb
      -- each head is below the other one, so that both are the first of their rank
      have hxy : rank x ≤ rank y := by
        rcases List.mem_cons.1 ((hmem y).2 List.mem_cons_self) with rfl | hy
        · exact le_rfl
        · exact ha.1 y hy
      have hyx : rank y ≤ rank x := by
        rcases List.mem_cons.1 ((hmem x).1 List.mem_cons_self) with rfl | hx
        · exact le_rfl
        · exact hb.1 x hx
      have hrank := le_antisymm hxy hyx
      have hheads := h (rank x)
      rw [List.filter_cons_of_pos (by simp), List.filter_cons_of_pos (by simp [hrank]), List.cons.injEq] at hheads
      obtain ⟨rfl, hrest⟩ := hheads
      have htails : ∀ r, a.filter (fun v => rank v = r) = b.filter fun v => rank v = r := by
        intro r
        by_cases hr : rank x = r
        · exact hr ▸ hrest
        · have := h r
          rwa [List.filter_cons_of_neg (by simpa using hr), List.filter_cons_of_neg (by simpa using hr)] at this
      exact congrArg (x :: ·) (ih ha.2 hb.2 htails fun v => by simpa using congrArg (v ∈ ·) (htails (rank v)))

section

variable {α : Type} {name : α → String} {values : List α}

/-- Sorting in the natural order is sorting by the ranks. -/
theorem naturalSortBy_eq (h : ∀ v ∈ values, (NaturalKey.of (name v)).Ranked) :
    naturalSortBy name values = values.mergeSort fun v w => decide (nameRank (name v) ≤ nameRank (name w)) := by
  unfold naturalSortBy
  dsimp only
  rw [List.map_mergeSort (s := fun v w => decide (nameRank (name v) ≤ nameRank (name w)))]
  · simp [Function.comp_def]
  · intro a ha b hb
    obtain ⟨v, hv, rfl⟩ := List.mem_map.1 ha
    obtain ⟨w, hw, rfl⟩ := List.mem_map.1 hb
    have hlt := NaturalKey.lt_iff (h w hw) (h v hv)
    rw [Bool.eq_iff_iff, Bool.not_eq_true', decide_eq_true_eq, ← Bool.not_eq_true, hlt, not_lt]
    exact Iff.rfl

theorem naturalSortBy_perm (name : α → String) (values : List α) : (naturalSortBy name values).Perm values := by
  have hkeyed := (List.mergeSort_perm (values.map fun v => (NaturalKey.of (name v), v)) fun a b => !(b.1.lt a.1)).map
    (·.2)
  simpa [naturalSortBy, Function.comp_def] using hkeyed

/-- What is sorted goes upwards in rank. -/
theorem pairwise_naturalSortBy (h : ∀ v ∈ values, (NaturalKey.of (name v)).Ranked) :
    (naturalSortBy name values).Pairwise fun v w => nameRank (name v) ≤ nameRank (name w) := by
  rw [naturalSortBy_eq h]
  have hsorted : (values.mergeSort fun v w => decide (nameRank (name v) ≤ nameRank (name w))).Pairwise
      fun v w => decide (nameRank (name v) ≤ nameRank (name w)) = true :=
    List.pairwise_mergeSort (fun a b c => by simpa using le_trans) (fun a b => by simpa using le_total _ _) values
  simpa using hsorted

/-- Sorting keeps the values of one rank in the order of the listing. -/
theorem filter_naturalSortBy (h : ∀ v ∈ values, (NaturalKey.of (name v)).Ranked)
    (r : List (WithBot (WithTop ℚ) ⊕ₗ List Nat) ×ₗ Nat) :
    (naturalSortBy name values).filter (fun v => nameRank (name v) = r) =
      values.filter fun v => nameRank (name v) = r := by
  have hties : (values.filter fun v => nameRank (name v) = r).Pairwise fun v w =>
      decide (nameRank (name v) ≤ nameRank (name w)) = true :=
    List.pairwise_of_forall_mem_list fun v hv w hw => by
      have hv := (List.mem_filter.1 hv).2
      have hw := (List.mem_filter.1 hw).2
      rw [decide_eq_true_eq] at hv hw ⊢
      rw [hv, hw]
  have hsub : (values.filter fun v => nameRank (name v) = r).Sublist (naturalSortBy name values) := by
    rw [naturalSortBy_eq h]
    exact List.sublist_mergeSort (fun a b c => by simpa using le_trans) (fun a b => by simpa using le_total _ _) hties
      List.filter_sublist
  have hkept := hsub.filter fun v => decide (nameRank (name v) = r)
  rw [List.filter_filter] at hkept
  simp only [Bool.and_self] at hkept
  refine (hkept.eq_of_length ?_).symm
  exact ((naturalSortBy_perm name values).filter _).length_eq.symm

/-- Two listings of the same values agree, once sorted, in the rank at every place. -/
theorem forall₂_tied_of_perm {listing : List α} (hp : listing.Perm values)
    (h : ∀ v ∈ values, (NaturalKey.of (name v)).Ranked) :
    List.Forall₂ (fun v w => Tied (name v) (name w)) (naturalSortBy name listing) (naturalSortBy name values) := by
  have hlisting : ∀ v ∈ listing, (NaturalKey.of (name v)).Ranked := fun v hv => h v (hp.subset hv)
  have hperm := (naturalSortBy_perm name listing).trans (hp.trans (naturalSortBy_perm name values).symm)
  have hranks : (naturalSortBy name listing).map (nameRank ∘ name)
      = (naturalSortBy name values).map (nameRank ∘ name) :=
    (hperm.map _).eq_of_pairwise (fun _ _ _ _ => le_antisymm)
      (List.pairwise_map.2 (pairwise_naturalSortBy hlisting)) (List.pairwise_map.2 (pairwise_naturalSortBy h))
  rw [← List.forall₂_eq_eq_eq, List.forall₂_map_left_iff, List.forall₂_map_right_iff] at hranks
  rw [List.forall₂_iff_zip] at hranks ⊢
  refine ⟨hranks.1, fun {v w} hvw => ?_⟩
  have hv := hlisting v ((naturalSortBy_perm name listing).subset (List.of_mem_zip hvw).1)
  have hw := h w ((naturalSortBy_perm name values).subset (List.of_mem_zip hvw).2)
  exact (tied_iff hv hw).2 (hranks.2 hvw)

/-- Values no two of which tie are sorted in the same way however they are listed. -/
theorem naturalSortBy_eq_of_perm {listing : List α} (hp : listing.Perm values)
    (h : ∀ v ∈ values, (NaturalKey.of (name v)).Ranked)
    (ht : values.Pairwise fun v w => ¬ Tied (name v) (name w)) :
    naturalSortBy name listing = naturalSortBy name values := by
  have hlisting : ∀ v ∈ listing, (NaturalKey.of (name v)).Ranked := fun v hv => h v (hp.subset hv)
  have hperm := (naturalSortBy_perm name listing).trans (hp.trans (naturalSortBy_perm name values).symm)
  refine hperm.eq_of_pairwise ?_ (pairwise_naturalSortBy hlisting) (pairwise_naturalSortBy h)
  intro v w hv hw hvw hwv
  have hv := hp.subset ((naturalSortBy_perm name listing).subset hv)
  have hw := (naturalSortBy_perm name values).subset hw
  have htied := (tied_iff (h v hv) (h w hw)).2 (le_antisymm hvw hwv)
  have hback := (tied_iff (h w hw) (h v hv)).2 (le_antisymm hwv hvw)
  by_contra hne
  have hboth : values.Pairwise fun v w => ¬ (Tied (name v) (name w) ∧ Tied (name w) (name v)) :=
    ht.imp fun hne h => hne h.1
  have hsymm : Std.Symm fun v w => ¬ (Tied (name v) (name w) ∧ Tied (name w) (name v)) := ⟨fun _ _ h ht => h ht.symm⟩
  exact hboth.forall hv hw hne ⟨htied, hback⟩

/-- A list without repetition does not hold two values in both orders. -/
theorem not_sublist_swap {l : List α} (hn : l.Nodup) {v w : α} (hvw : [v, w].Sublist l) : ¬ [w, v].Sublist l := by
  induction l with
  | nil => simp at hvw
  | cons u l ih =>
    rw [List.nodup_cons] at hn
    intro hwv
    rw [List.cons_sublist_cons'] at hvw hwv
    rcases hvw with hvw | ⟨rfl, hw⟩ <;> rcases hwv with hwv | ⟨rfl, hv⟩
    · exact ih hn.2 hvw hwv
    · exact hn.1 (hvw.subset (by simp))
    · exact hn.1 (hwv.subset (by simp))
    · exact hn.1 (hw.subset (by simp))

/-- Of two values that tie, the one that is listed first stays first. -/
theorem naturalSortBy_swap_ne {v w : α} {rest : List α} (hn : (v :: w :: rest).Nodup)
    (h : ∀ u ∈ v :: w :: rest, (NaturalKey.of (name u)).Ranked) (ht : Tied (name v) (name w)) :
    naturalSortBy name (v :: w :: rest) ≠ naturalSortBy name (w :: v :: rest) := by
  have hswap : ∀ u ∈ w :: v :: rest, (NaturalKey.of (name u)).Ranked :=
    fun u hu => h u ((List.Perm.swap v w rest).subset hu)
  have hrank := (tied_iff (h v (by simp)) (h w (by simp))).1 ht
  intro heq
  have hvw : [v, w].Sublist (naturalSortBy name (v :: w :: rest)) := by
    rw [naturalSortBy_eq h]
    exact List.pair_sublist_mergeSort (fun a b c => by simpa using le_trans) (fun a b => by simpa using le_total _ _)
      (by simp [hrank]) (by simp)
  have hwv : [w, v].Sublist (naturalSortBy name (v :: w :: rest)) := by
    rw [heq, naturalSortBy_eq hswap]
    exact List.pair_sublist_mergeSort (fun a b c => by simpa using le_trans) (fun a b => by simpa using le_total _ _)
      (by simp [hrank]) (by simp)
  exact not_sublist_swap ((naturalSortBy_perm name _).nodup_iff.2 hn) hvw hwv

/-- The listing of a list with two of its values in front. -/
theorem exists_perm_cons_cons {v w : α} (hv : v ∈ values) (hw : w ∈ values) (hne : v ≠ w) :
    ∃ rest, (v :: w :: rest).Perm values := by
  obtain ⟨s, t, rfl⟩ := List.append_of_mem hv
  have hw : w ∈ s ++ t := by simpa [hne.symm] using hw
  obtain ⟨s', t', heq⟩ := List.append_of_mem hw
  refine ⟨s' ++ t', ((List.perm_middle.symm.trans ?_).cons v).trans List.perm_middle.symm⟩
  rw [heq]

/-- **Values without repetition are sorted in the same way however they are listed** iff no two of them tie. -/
theorem naturalSortBy_listing_iff (hn : values.Nodup) (h : ∀ v ∈ values, (NaturalKey.of (name v)).Ranked) :
    (∀ listing, listing.Perm values → naturalSortBy name listing = naturalSortBy name values) ↔
      values.Pairwise fun v w => ¬ Tied (name v) (name w) := by
  constructor
  · intro hall
    refine hn.pairwise_of_forall_ne fun v hv w hw hne htied => ?_
    obtain ⟨rest, hp⟩ := exists_perm_cons_cons hv hw hne
    have hswap := (List.Perm.swap v w rest).trans hp
    exact naturalSortBy_swap_ne (hp.nodup_iff.2 hn) (fun u hu => h u (hp.subset hu)) htied
      ((hall _ hp).trans (hall _ hswap).symm)
  · exact fun ht listing hp => naturalSortBy_eq_of_perm hp h ht

end

end SchemaClosure
