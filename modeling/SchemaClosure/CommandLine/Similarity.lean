/-!
# Similar words

How alike two words are: the characters of their longest common run, and of the longest common runs on
both sides of it, and so on, out of all characters of both. Of several words the most similar ones are
suggested.
-/

namespace SchemaClosure.Similarity

/-- The length of the common start of two words. -/
def commonStart : List Char → List Char → Nat
  | a :: as, b :: bs => if a = b then commonStart as bs + 1 else 0
  | _, _ => 0

/-- A common run: where it starts in each of two words, and its length. -/
structure Run where
  first : Nat
  second : Nat
  length : Nat
  deriving DecidableEq, Repr

/-- The longest common run of two words, of several the one that starts first in the first word, and
then in the second. -/
def longestRun (a b : List Char) : Run :=
  let starts := (List.range a.length).flatMap fun i => (List.range b.length).map fun j => (i, j)
  starts.foldl (fun best (i, j) =>
    let n := commonStart (a.drop i) (b.drop j)
    if best.length < n then ⟨i, j, n⟩ else best) ⟨0, 0, 0⟩

/-- The number of characters in the longest common run and in those on both sides of it; `fuel` bounds
the number of runs. -/
def matchedFrom : Nat → List Char → List Char → Nat
  | 0, _, _ => 0
  | fuel + 1, a, b =>
    let run := longestRun a b
    if run.length = 0 then 0
    else
      matchedFrom fuel (a.take run.first) (b.take run.second) + run.length
        + matchedFrom fuel (a.drop (run.first + run.length)) (b.drop (run.second + run.length))

def matched (a b : List Char) : Nat := matchedFrom a.length a b

/-- Twice the common characters, and all characters. -/
def ratio (a b : String) : Nat × Nat :=
  (2 * matched a.toList b.toList, a.length + b.length)

def most : Nat := 3

/-- The words of which at least three fifths are common with `word`, at most three of them, the most
similar ones. -/
def suggestions (word : String) (words : List String) : List String :=
  let scored := (words.map fun w => (ratio w word, w)).filter fun ((n, d), _) => 3 * d ≤ 5 * n
  let better (x y : (Nat × Nat) × String) : Bool :=
    let (l, r) := (x.1.1 * y.1.2, y.1.1 * x.1.2)
    r < l || (l == r && y.2 ≤ x.2)
  ((scored.mergeSort better).take most).map (·.2)

end SchemaClosure.Similarity
