import SchemaClosure.Text.Table.Case

/-!
# Lower case

The small form of a text over the whole of Unicode. Each character has its own small form, with
one exception: a capital sigma becomes a final sigma when a letter stands before it and none after
it, where characters without case that merely accompany letters are passed over.
-/

namespace SchemaClosure

namespace Text

/-- The small form of one character, a capital sigma apart. -/
def lowerChar (c : Char) : List Char :=
  let n := c.toNat
  if n < 0x41 then [c]
  else if n < 0x80 then [if n ≤ 0x5A then Char.ofNat (n + 32) else c]
  else if n = 0x130 then ['i', Char.ofNat 0x307]
  else
    match Table.lower.find? fun (lo, hi, step, _) => lo ≤ n && n ≤ hi && (n - lo) % step == 0 with
    | some (_, _, _, shift) => [Char.ofNat (n + shift).toNat]
    | none => [c]

/-- Whether the first character that counts for a sigma's neighbourhood has case. -/
def casedNext (s : List Char) : Bool :=
  let skip (c : Char) := Table.caseIgnorable.any fun (lo, hi) => lo ≤ c.toNat && c.toNat ≤ hi
  match s.dropWhile skip with
  | [] => false
  | c :: _ => Table.cased.any fun (lo, hi) => lo ≤ c.toNat && c.toNat ≤ hi

/-- Lowers the text; `before` holds what was passed already, the nearest character first. -/
def lowerFrom (before : List Char) : List Char → List Char
  | [] => []
  | c :: rest =>
    let small :=
      if c = 'Σ' then [if casedNext before && !casedNext rest then 'ς' else 'σ'] else lowerChar c
    small ++ lowerFrom (c :: before) rest

def lower (s : String) : String :=
  String.ofList (lowerFrom [] s.toList)

end Text

end SchemaClosure
