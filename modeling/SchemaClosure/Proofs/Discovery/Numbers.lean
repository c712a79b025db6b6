import SchemaClosure.Proofs.Discovery.NaturalOrder
import SchemaClosure.Proofs.Number.Whole

/-!
# Numbers in names

A name is cut into texts and numbers from left to right. Where a run of digits stands between characters that are no
part of a number, it is a chunk of its own, and what stands in front of it is cut as if nothing followed
(`chunks_between`): a number that is begun in front cannot reach over such a character (`numberLength_append`). The
ending that is dropped is the last one only (`dropExtension_append`).

Hence two names that differ in one such run of digits alone are in the order of the numbers
(`lt_of_number_lt`), since their keys agree up to it.
-/

namespace SchemaClosure.NaturalKey

/-! ## The extension -/

/-- An extension is a point and word characters; what stands in front of it is kept, points and all. -/
theorem dropExtension_append (s : List Char) {word : List Char} (hne : word ≠ [])
    (hword : ∀ c ∈ word, Text.isWord c = true) : dropExtension (s ++ '.' :: word) = s := by
  have hword' : ∀ c ∈ word.reverse, Text.isWord c = true := fun c hc => hword c (List.mem_reverse.1 hc)
  have hreverse : (s ++ '.' :: word).reverse = word.reverse ++ '.' :: s.reverse := by simp
  have hbreak : ∀ rest, word.reverse ++ '.' :: s.reverse ≠ '\n' :: rest := by
    intro rest heq
    obtain ⟨c, more, hcons⟩ := List.exists_cons_of_ne_nil (List.reverse_ne_nil_iff.2 hne)
    rw [hcons, List.cons_append, List.cons.injEq] at heq
    have := hword' c (hcons ▸ List.mem_cons_self)
    rw [heq.1] at this
    exact absurd this (by decide +kernel)
  have hpoint : Text.isWord '.' = false := by decide +kernel
  have htake : (word.reverse ++ '.' :: s.reverse).takeWhile Text.isWord = word.reverse := by
    rw [List.takeWhile_append_of_pos hword', List.takeWhile_cons_of_neg (by simp [hpoint]), List.append_nil]
  have hdrop : (word.reverse ++ '.' :: s.reverse).dropWhile Text.isWord = '.' :: s.reverse := by
    rw [List.dropWhile_append_of_pos hword', List.dropWhile_cons_of_neg (by simp [hpoint])]
  have hempty : word.reverse.isEmpty = false := List.isEmpty_eq_false_iff.2 (List.reverse_ne_nil_iff.2 hne)
  unfold dropExtension
  rw [hreverse]
  split
  rename_i body tail heq
  split at heq
  · exact absurd ‹_› (hbreak _)
  · rw [Prod.mk.injEq] at heq
    obtain ⟨rfl, rfl⟩ := heq
    rw [htake, hdrop]
    simp [hempty]

/-! ## Characters beside a number -/

/-- The character is no part of a number: neither a digit nor a point. -/
def Apart (c : Char) : Prop := Text.isDigit c = false ∧ c ≠ '.'

instance (c : Char) : Decidable (Apart c) := inferInstanceAs (Decidable (_ ∧ _))

/-- No number reaches over the end of the text. -/
def EndsApart (s : List Char) : Prop := ∀ c ∈ s.getLast?, Apart c

/-- No number reaches over the start of the text. -/
def StartsApart (s : List Char) : Prop := ∀ c ∈ s.head?, Apart c

instance (s : List Char) : Decidable (EndsApart s) :=
  decidable_of_iff (s.getLast?.all fun c => decide (Apart c)) (by simp [EndsApart, Option.all_eq_true])

instance (s : List Char) : Decidable (StartsApart s) :=
  decidable_of_iff (s.head?.all fun c => decide (Apart c)) (by simp [StartsApart, Option.all_eq_true])

theorem EndsApart.of_cons {c : Char} {s : List Char} (h : EndsApart (c :: s)) : EndsApart s := by
  intro x hx
  cases s with
  | nil => cases hx
  | cons y rest => exact h x (by rwa [List.getLast?_cons_cons])

theorem EndsApart.drop {s : List Char} (h : EndsApart s) (n : Nat) : EndsApart (s.drop n) := by
  induction n generalizing s with
  | zero => exact h
  | succ n ih =>
    cases s with
    | nil => exact h
    | cons c rest => exact ih h.of_cons

theorem EndsApart.exists_mem {s : List Char} (h : EndsApart s) (hne : s ≠ []) : ∃ c ∈ s, Apart c :=
  ⟨s.getLast hne, List.getLast_mem hne, h _ (List.getLast?_eq_some_getLast hne)⟩

/-- Digits are counted up to the first other character. -/
theorem takeWhile_isDigit_append {s : List Char} (h : ∃ c ∈ s, Apart c) (t : List Char) :
    (s ++ t).takeWhile Text.isDigit = s.takeWhile Text.isDigit ∧
      (s.takeWhile Text.isDigit).length < s.length := by
  obtain ⟨c, hc, hapart⟩ := h
  have hless : (s.takeWhile Text.isDigit).length < s.length := by
    refine lt_of_le_of_ne (List.takeWhile_prefix _).length_le fun heq => ?_
    have hall := List.takeWhile_eq_self_iff.1 ((List.takeWhile_prefix _).eq_of_length heq)
    exact absurd (hall c hc) (by simp [hapart.1])
  exact ⟨by rw [List.takeWhile_append, if_neg hless.ne], hless⟩

/-! ## Chunks -/

/-- A number that starts in front of a boundary ends there. -/
theorem numberLength_append {s : List Char} (hs : EndsApart s) (hne : s ≠ []) (t : List Char) :
    numberLength (s ++ t) = numberLength s ∧ numberLength s < s.length := by
  obtain ⟨htake, hless⟩ := takeWhile_isDigit_append (hs.exists_mem hne) t
  unfold numberLength
  rw [htake]
  dsimp only
  rw [List.drop_append_of_le_length hless.le]
  have hrest : EndsApart (s.drop (s.takeWhile Text.isDigit).length) := hs.drop _
  have hlength := List.length_drop (i := (s.takeWhile Text.isDigit).length) (l := s)
  generalize (s.takeWhile Text.isDigit).length = whole at *
  cases hdrop : s.drop whole with
  | nil =>
    rw [hdrop, List.length_nil] at hlength
    omega
  | cons c rest =>
    rw [hdrop] at hrest
    rw [hdrop, List.length_cons] at hlength
    by_cases hpoint : c = '.'
    · subst hpoint
      have hrest_ne : rest ≠ [] := by
        rintro rfl
        exact (hrest '.' rfl).2 rfl
      obtain ⟨htake, hless⟩ := takeWhile_isDigit_append (hrest.of_cons.exists_mem hrest_ne) t
      simp only [List.cons_append, htake]
      refine ⟨trivial, ?_⟩
      split <;> omega
    · simp [hpoint, hless]

/-- A run of digits is a number up to the next character that is no part of one. -/
theorem numberLength_digits {run rest : List Char} (hrun : ∀ c ∈ run, Text.isDigit c = true)
    (hrest : StartsApart rest) : numberLength (run ++ rest) = run.length := by
  have htake : (run ++ rest).takeWhile Text.isDigit = run := by
    rw [List.takeWhile_append_of_pos hrun]
    cases rest with
    | nil => simp
    | cons c rest => rw [List.takeWhile_cons_of_neg (by simp [(hrest c rfl).1]), List.append_nil]
  unfold numberLength
  rw [htake]
  dsimp only
  rw [List.drop_left]
  cases rest with
  | nil => rfl
  | cons c rest => simp [(hrest c rfl).2]

/-- The characters of a number are read to its end. -/
theorem chunksFrom_skip (text : List Char) {number run : List Char} {skip : Nat} (hskip : run.length = skip + 1)
    (rest : List Char) :
    chunksFrom text number (skip + 1) (run ++ rest) = (number.reverse ++ run) :: chunksFrom [] [] 0 rest := by
  induction run generalizing number skip with
  | nil => cases hskip
  | cons c run ih =>
    rw [List.cons_append, chunksFrom]
    cases skip with
    | zero =>
      obtain rfl : run = [] := List.length_eq_zero_iff.1 (by simpa using hskip)
      simp
    | succ skip =>
      rw [if_neg (by omega), ih (by simpa using hskip)]
      simp

/-- A run of digits is a chunk of its own. -/
theorem chunksFrom_digits {run rest : List Char} (hne : run ≠ []) (hrun : ∀ c ∈ run, Text.isDigit c = true)
    (hrest : StartsApart rest) (text number : List Char) :
    chunksFrom text number 0 (run ++ rest) = text.reverse :: run :: chunksFrom [] [] 0 rest := by
  have hlength := numberLength_digits hrun hrest
  cases run with
  | nil => exact absurd rfl hne
  | cons c run =>
    rw [List.cons_append] at hlength ⊢
    rw [chunksFrom, hlength, List.length_cons, if_neg (by omega), Nat.add_sub_cancel]
    cases run with
    | nil => simp
    | cons d run =>
      rw [if_neg (by simp), List.length_cons, chunksFrom_skip [] rfl]
      simp

/-- A text that ends beside a number is cut as if nothing followed. -/
theorem chunksFrom_append {s t : List Char} {chunks : List (List Char)} (hs : EndsApart s)
    (ht : ∀ text number, chunksFrom text number 0 t = text.reverse :: chunks) (text number : List Char) (skip : Nat)
    (hskip : skip = 0 ∨ skip < s.length) :
    chunksFrom text number skip (s ++ t) = chunksFrom text number skip s ++ chunks := by
  induction s generalizing text number skip with
  | nil =>
    obtain rfl : skip = 0 := hskip.resolve_right (by simp)
    rw [List.nil_append, ht]
    rfl
  | cons c s ih =>
    have ih := ih hs.of_cons
    cases skip with
    | succ skip =>
      have hless : skip < s.length := by simpa using hskip
      rw [List.cons_append, chunksFrom, chunksFrom]
      split
      · rw [ih _ _ 0 (.inl rfl), List.cons_append]
      · rw [ih _ _ skip (.inr hless)]
    | zero =>
      obtain ⟨hlength, hless⟩ := numberLength_append hs (List.cons_ne_nil c s) t
      rw [List.cons_append] at hlength ⊢
      rw [chunksFrom, chunksFrom, hlength]
      rw [List.length_cons] at hless
      split
      · rw [ih _ _ 0 (.inl rfl)]
      · split
        · rw [ih _ _ 0 (.inl rfl), List.cons_append, List.cons_append]
        · rw [ih _ _ _ (.inr (by omega)), List.cons_append]

/-- The chunks of a text: texts and numbers in turn. -/
def chunks (s : List Char) : List (List Char) := chunksFrom [] [] 0 s

/-- **A run of digits between boundaries** is a chunk of its own, and what is around it is cut by itself. -/
theorem chunks_between {s run t : List Char} (hs : EndsApart s) (hne : run ≠ [])
    (hrun : ∀ c ∈ run, Text.isDigit c = true) (ht : StartsApart t) :
    chunks (s ++ (run ++ t)) = chunks s ++ run :: chunks t :=
  chunksFrom_append hs (fun text number => chunksFrom_digits hne hrun ht text number) [] [] 0 (.inl rfl)

/-! ## Keys -/

/-- The parts that chunks stand for; an empty text between two numbers stands for none. -/
def partsOf (chunks : List (List Char)) : List NamePart := (chunks.filter (!·.isEmpty)).map partOf

theorem of_eq (name : String) : of name = ⟨partsOf (chunks (dropExtension name.toList)), name.length⟩ := rfl

theorem partsOf_append (a b : List (List Char)) : partsOf (a ++ b) = partsOf a ++ partsOf b := by
  simp [partsOf]

theorem partsOf_cons {chunk : List Char} (h : chunk ≠ []) (rest : List (List Char)) :
    partsOf (chunk :: rest) = partOf chunk :: partsOf rest := by
  simp [partsOf, h]

/-- A chunk that does not read as a nan stands for a part with a rank. -/
theorem ranked_partOf {chunk : List Char} (h : Numeral.float? chunk ≠ some .nan) : (partOf chunk).Ranked := by
  unfold partOf NamePart.Ranked
  split
  · rename_i x hx
    intro heq
    rw [NamePart.number.injEq] at heq
    exact h (heq ▸ hx)
  · exact NamePart.noConfusion

/-- Only a text without digits may read as a nan. -/
theorem ranked_partsOf {s : List Char}
    (h : ∀ chunk ∈ chunks s, (∀ c ∈ chunk, Text.isDigit c = false) → Numeral.float? chunk ≠ some .nan) :
    ∀ p ∈ partsOf (chunks s), p.Ranked := by
  intro p hp
  obtain ⟨chunk, hchunk, rfl⟩ := List.mem_map.1 hp
  exact ranked_partOf fun hnan => h chunk (List.mem_of_mem_filter hchunk) (Numeral.isDigit_of_nan hnan) hnan

/-- Keys that agree up to a part are in the order of this part. -/
theorem partsLt_append {last : Bool} {ps qs rs : List NamePart} {p q : NamePart} (hps : ∀ r ∈ ps, r.Ranked)
    (hsame : samePart p q = false) (hlt : partLt p q = true) : partsLt last (ps ++ p :: qs) (ps ++ q :: rs) = true := by
  induction ps with
  | nil => simp [partsLt, hsame, hlt]
  | cons r ps ih =>
    rw [List.forall_mem_cons] at hps
    have hself : samePart r r = true := (samePart_iff hps.1 hps.1).2 rfl
    rw [List.cons_append, List.cons_append, partsLt, if_pos hself, ih hps.2]

/-- Runs of digits are in the order of their numbers. -/
theorem partOf_digits_lt {run other : List Char} {m n : Nat} (hm : Numeral.Digits run m) (hn : Numeral.Digits other n)
    (hless : m < n) (hfits : n < 2 ^ 53) :
    samePart (partOf run) (partOf other) = false ∧ partLt (partOf run) (partOf other) = true := by
  obtain ⟨a, e, hrun, ha⟩ := hm.float?_eq (hless.trans hfits)
  obtain ⟨b, f, hother, hb⟩ := hn.float?_eq hfits
  have hrun' : partOf run = .number (.finite false a e) := by rw [partOf, hrun]
  have hother' : partOf other = .number (.finite false b f) := by rw [partOf, hother]
  have hranked : ∀ {m e}, (NamePart.number (.finite false m e)).Ranked := by
    intro m e heq
    cases heq
  have hrank : (NamePart.number (.finite false a e)).rank < (NamePart.number (.finite false b f)).rank := by
    have hvalue : Binary64.exact false a e < Binary64.exact false b f := by
      simp only [Binary64.exact, Bool.false_eq_true, if_false, ha, hb]
      exact_mod_cast hless
    simpa [NamePart.rank, Binary64.rank] using hvalue
  rw [hrun', hother']
  refine ⟨?_, (partLt_iff hranked hranked).2 hrank⟩
  rw [← Bool.not_eq_true, samePart_iff hranked hranked]
  exact hrank.ne

/-- **Numbers in names** order numerically. -/
theorem lt_of_number_lt {start run other ending word : String} {m n : Nat} (hstart : EndsApart start.toList)
    (hending : StartsApart ending.toList)
    (hnan : ∀ chunk ∈ chunks start.toList, (∀ c ∈ chunk, Text.isDigit c = false) →
      Numeral.float? chunk ≠ some .nan)
    (hm : Numeral.Digits run.toList m) (hn : Numeral.Digits other.toList n) (hless : m < n) (hfits : n < 2 ^ 53)
    (hne : word ≠ "") (hword : ∀ c ∈ word.toList, Text.isWord c = true) :
    (of (start ++ run ++ ending ++ "." ++ word)).lt (of (start ++ other ++ ending ++ "." ++ word)) = true := by
  have hparts : ∀ {digits : String} {k : Nat}, Numeral.Digits digits.toList k →
      (of (start ++ digits ++ ending ++ "." ++ word)).parts
        = partsOf (chunks start.toList) ++ partOf digits.toList :: partsOf (chunks ending.toList) := by
    intro digits k hk
    have hchars : (start ++ digits ++ ending ++ "." ++ word).toList
        = (start.toList ++ (digits.toList ++ ending.toList)) ++ '.' :: word.toList := by simp
    rw [of_eq, hchars, dropExtension_append _ (by simpa using hne) hword,
      chunks_between hstart hk.ne_nil hk.isDigit hending]
    dsimp only
    rw [partsOf_append, partsOf_cons hk.ne_nil]
  obtain ⟨hsame, hlt⟩ := partOf_digits_lt hm hn hless hfits
  rw [lt, hparts hm, hparts hn]
  exact partsLt_append (ranked_partsOf hnan) hsame hlt

/-- Numbers with points, names of infinity and zeros in front do not get in the way. -/
theorem lt_of_number_lt_release :
    (of ("Inf1.2.3_V" ++ "0009" ++ "-rc.7" ++ "." ++ "yaml")).lt (of ("Inf1.2.3_V" ++ "10" ++ "-rc.7" ++ "." ++ "yaml"))
      = true := by
  have hm : Numeral.Digits "0009".toList 9 := ⟨by decide, List.all_eq_true.1 (by decide), by decide⟩
  have hn : Numeral.Digits "10".toList 10 := ⟨by decide, List.all_eq_true.1 (by decide), by decide⟩
  have hnan : ∀ chunk ∈ chunks "Inf1.2.3_V".toList, Numeral.float? chunk ≠ some .nan := by decide +kernel
  exact lt_of_number_lt (by decide +kernel) (by decide +kernel) (fun chunk hchunk _ => hnan chunk hchunk) hm hn
    (by decide) (by decide) (by decide) (List.all_eq_true.1 (by decide +kernel))

end SchemaClosure.NaturalKey
