/-!
# Cutting, joining and padding text

Splitting at a character, cutting at its last occurrence, joining with a separator and literal
replacement, all on lists of characters with thin wrappers for `String`. Splitting and joining are
inverse: `join_split` loses nothing and `split_join` finds pieces that do not hold the separator. Numbers are
written to a base with zeros in front, other texts with spaces on either side.
-/

namespace SchemaClosure

namespace Chars

/-- The pieces between the occurrences of `c`; there is always at least one. -/
def split (c : Char) : List Char → List (List Char)
  | [] => [[]]
  | x :: xs =>
    if x = c then [] :: split c xs
    else match split c xs with
      | [] => [[x]]
      | p :: ps => (x :: p) :: ps

def join (c : Char) : List (List Char) → List Char
  | [] => []
  | [p] => p
  | p :: q :: ps => p ++ c :: join c (q :: ps)

/-- What stands before and after the last `c`, if there is one. -/
def splitLast? (c : Char) : List Char → Option (List Char × List Char)
  | [] => none
  | x :: xs =>
    match splitLast? c xs with
    | some (before, after) => some (x :: before, after)
    | none => if x = c then some ([], xs) else none

/-- The rest of the text after `word`, if the text starts with it. -/
def dropWord? : List Char → List Char → Option (List Char)
  | [], text => some text
  | _ :: _, [] => none
  | w :: word, x :: xs => if w = x then dropWord? word xs else none

/-- Every occurrence of `word` from left to right replaced by `new`; occurrences do not overlap.
`skip` counts the characters of the last occurrence that are still to be passed over. -/
def replaceFrom (word new : List Char) : Nat → List Char → List Char
  | _, [] => []
  | skip + 1, _ :: xs => replaceFrom word new skip xs
  | 0, x :: xs =>
    if word.isPrefixOf (x :: xs) && !word.isEmpty then
      new ++ replaceFrom word new (word.length - 1) xs
    else x :: replaceFrom word new 0 xs

def replace (word new text : List Char) : List Char :=
  replaceFrom word new 0 text

/-- What stands before and after the first occurrence of `word`, if there is one. -/
def cutAt? (word : List Char) : List Char → Option (List Char × List Char)
  | [] => if word.isEmpty then some ([], []) else none
  | x :: xs =>
    match dropWord? word (x :: xs) with
    | some after => some ([], after)
    | none => (cutAt? word xs).map fun (before, after) => (x :: before, after)

theorem split_ne_nil (c : Char) (s : List Char) : split c s ≠ [] := by
  cases s with
  | nil => simp [split]
  | cons x xs =>
    simp only [split]
    split
    · simp
    · split <;> simp

theorem join_cons_cons (c x : Char) (p : List Char) (ps : List (List Char)) :
    join c ((x :: p) :: ps) = x :: join c (p :: ps) := by
  cases ps <;> simp [join]

/-- Joining the pieces gives the text back. -/
theorem join_split (c : Char) (s : List Char) : join c (split c s) = s := by
  induction s with
  | nil => rfl
  | cons x xs ih =>
    simp only [split]
    split
    case isTrue h =>
      subst h
      cases hs : split x xs with
      | nil => exact absurd hs (split_ne_nil _ _)
      | cons p ps => rw [hs] at ih; simp [join, ih]
    case isFalse h =>
      cases hs : split c xs with
      | nil => exact absurd hs (split_ne_nil _ _)
      | cons p ps => rw [hs] at ih; simp [join_cons_cons, ih]

theorem split_of_not_mem {c : Char} {s : List Char} (h : c ∉ s) : split c s = [s] := by
  induction s with
  | nil => rfl
  | cons x xs ih =>
    simp only [List.mem_cons, not_or] at h
    simp [split, Ne.symm h.1, ih h.2]

theorem split_append_cons {c : Char} {p : List Char} (h : c ∉ p) (rest : List Char) :
    split c (p ++ c :: rest) = p :: split c rest := by
  induction p with
  | nil => simp [split]
  | cons x xs ih =>
    simp only [List.mem_cons, not_or] at h
    simp [split, Ne.symm h.1, ih h.2]

/-- Splitting finds the joined pieces again when none of them holds the separator. -/
theorem split_join {c : Char} {ps : List (List Char)} (hne : ps ≠ []) (h : ∀ p ∈ ps, c ∉ p) :
    split c (join c ps) = ps := by
  induction ps with
  | nil => exact absurd rfl hne
  | cons p ps ih =>
    cases ps with
    | nil => exact split_of_not_mem (h p (by simp))
    | cons q qs =>
      rw [join, split_append_cons (h p (by simp)), ih (by simp) fun r hr => h r (by simp [hr])]

theorem not_mem_of_mem_split {c : Char} {s p : List Char} (hp : p ∈ split c s) : c ∉ p := by
  induction s generalizing p with
  | nil => simp [split] at hp; simp [hp]
  | cons x xs ih =>
    simp only [split] at hp
    split at hp
    case isTrue h =>
      rcases List.mem_cons.1 hp with rfl | hp
      · simp
      · exact ih hp
    case isFalse h =>
      cases hs : split c xs with
      | nil => exact absurd hs (split_ne_nil _ _)
      | cons q qs =>
        rw [hs] at hp ih
        rcases List.mem_cons.1 hp with rfl | hp
        · have := ih (p := q) (by simp)
          simp [Ne.symm h, this]
        · exact ih (by simp [hp])

/-- What a piece holds is in the text. -/
theorem mem_of_mem_split {c x : Char} {s p : List Char} (hp : p ∈ split c s) (hx : x ∈ p) : x ∈ s := by
  induction s generalizing p with
  | nil =>
    rw [split, List.mem_singleton] at hp
    exact absurd hx (hp ▸ List.not_mem_nil)
  | cons y ys ih =>
    rw [split] at hp
    split at hp
    · rcases List.mem_cons.1 hp with rfl | hp
      · cases hx
      · exact List.mem_cons_of_mem y (ih hp hx)
    · cases hs : split c ys with
      | nil => exact absurd hs (split_ne_nil c ys)
      | cons q qs =>
        rw [hs] at hp ih
        rcases List.mem_cons.1 hp with rfl | hp
        · rcases List.mem_cons.1 hx with rfl | hx
          · exact List.mem_cons_self
          · exact List.mem_cons_of_mem y (ih List.mem_cons_self hx)
        · exact List.mem_cons_of_mem y (ih (List.mem_cons_of_mem q hp) hx)

end Chars

namespace Text

/-- The pieces of a text between the occurrences of `c`. -/
def pieces (c : Char) (s : String) : List String :=
  (Chars.split c s.toList).map String.ofList

def join (separator : String) : List String → String
  | [] => ""
  | [s] => s
  | s :: t :: rest => s ++ separator ++ join separator (t :: rest)

/-- The text before and after the last `c`, if there is one. -/
def cutLast? (c : Char) (s : String) : Option (String × String) :=
  (Chars.splitLast? c s.toList).map fun (a, b) => (String.ofList a, String.ofList b)

def startsWith (start s : String) : Bool :=
  start.toList.isPrefixOf s.toList

/-- Every occurrence of `word` in `s` replaced by `new`. -/
def replace (word new s : String) : String :=
  String.ofList (Chars.replace word.toList new.toList s.toList)

def repeated (n : Nat) (c : Char) : String :=
  String.ofList (List.replicate n c)

/-- The text with spaces up to a width, at the end if it is aligned to the left, else in front. -/
def padded (s : String) (width : Nat) (left : Bool) : String :=
  let spaces := repeated (width - s.length) ' '
  if left then s ++ spaces else spaces ++ s

/-- The digits of `n` to a base, with zeros in front up to `width` digits. -/
def digits (base width n : Nat) : List Char :=
  let written := Nat.toDigits base n
  List.replicate (width - written.length) '0' ++ written

/-- The decimal text of `n`, with zeros in front up to `width` digits. -/
def decimal (width n : Nat) : String :=
  String.ofList (digits 10 width n)

end Text

end SchemaClosure
