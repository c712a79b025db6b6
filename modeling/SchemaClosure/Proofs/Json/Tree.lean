import SchemaClosure.Json.Text

/-!
# What a JSON text is made of

The text of a value as a tree of words, literals, lists and mappings, and the characters of such a tree at a depth.
Knots and marks do not show in it, and keys are literals whatever they were. The text of a value is the text of
its tree (`renderAt?_eq`), so what is read from JSON text is settled on trees.
-/

namespace SchemaClosure

namespace Json

/-- The parts of a JSON text. -/
inductive Tree where
  /-- A number, a truth value, null, or the name of a number that is not finite. -/
  | word (w : String)
  | literal (s : String)
  | list (items : List Tree)
  | mapping (entries : List (String × Tree))
  deriving Inhabited

namespace Tree

/-- The start of a line at a depth. -/
def line (depth : Nat) : List Char := '\n' :: List.replicate (2 * depth) ' '

/-- The comma in front of a part that is not the first one. -/
def comma (first : Bool) : List Char := if first then [] else [',']

/-- The start of the line of a closing bracket, which stands alone unless there is nothing in front of it. -/
def lastLine (depth : Nat) (empty : Bool) : List Char := if empty then [] else line depth

mutual

/-- The characters of a tree at a depth. -/
def chars (depth : Nat) : Tree → List Char
  | .word w => w.toList
  | .literal s => (Json.literal s).toList
  | .list items => '[' :: itemsChars true (depth + 1) items ++ lastLine depth items.isEmpty ++ [']']
  | .mapping entries =>
    '\x7b' :: entriesChars true (depth + 1) entries ++ lastLine depth entries.isEmpty ++ ['\x7d']

/-- The characters of the items of a list. -/
def itemsChars (first : Bool) (depth : Nat) : List Tree → List Char
  | [] => []
  | t :: rest => comma first ++ line depth ++ t.chars depth ++ itemsChars false depth rest

/-- The characters of the entries of a mapping. -/
def entriesChars (first : Bool) (depth : Nat) : List (String × Tree) → List Char
  | [] => []
  | (k, t) :: rest =>
    comma first ++ line depth ++ (Json.literal k).toList ++ ':' :: ' ' :: t.chars depth ++ entriesChars false depth rest

end

end Tree

/-- The text in the literal of a key. -/
def keyText? : Scalar → Except Unwritable String
  | .text s => .ok s
  | s => word? s

mutual

/-- The tree of the JSON text of a value. -/
def tree? : Value → Except Unwritable Tree
  | .scalar (.text s) => .ok (.literal s)
  | .scalar s => (word? s).map .word
  | .list _ items => (trees? items).map .list
  | .mapping _ entries => (entryTrees? entries).map .mapping
  | .set _ _ => .error .noForm
  | .knot _ body => tree? body
  | .again _ => .error .endless

/-- The trees of the items of a list. -/
def trees? : List Value → Except Unwritable (List Tree)
  | [] => .ok []
  | v :: rest => do
    let first ← tree? v
    let rest ← trees? rest
    return first :: rest

/-- The trees of the entries of a mapping. -/
def entryTrees? : List (Scalar × Value) → Except Unwritable (List (String × Tree))
  | [] => .ok []
  | (k, v) :: rest => do
    let key ← keyText? k
    let value ← tree? v
    let rest ← entryTrees? rest
    return (key, value) :: rest

end

/-! ## The text of the tree -/

namespace Tree

/-- Parts on lines of their own, with commas between them. -/
def lines (first : Bool) (depth : Nat) (parts : List (List Char)) : List Char :=
  match parts with
  | [] => []
  | part :: rest => comma first ++ line depth ++ part ++ lines false depth rest

/-- The characters of an entry. -/
def entryChars (depth : Nat) (entry : String × Tree) : List Char :=
  (Json.literal entry.1).toList ++ ':' :: ' ' :: entry.2.chars depth

theorem itemsChars_eq (first : Bool) (depth : Nat) (items : List Tree) :
    itemsChars first depth items = lines first depth (items.map (chars depth)) := by
  induction items generalizing first with
  | nil => rfl
  | cons t rest ih => rw [itemsChars, ih, List.map_cons, lines]

theorem entriesChars_eq (first : Bool) (depth : Nat) (entries : List (String × Tree)) :
    entriesChars first depth entries = lines first depth (entries.map (entryChars depth)) := by
  induction entries generalizing first with
  | nil => rfl
  | cons entry rest ih => simp [entriesChars, ih, lines, entryChars]

theorem lines_false (depth : Nat) (parts : List (List Char)) :
    lines false depth parts = parts.flatMap fun part => ',' :: line depth ++ part := by
  induction parts with
  | nil => rfl
  | cons part rest ih => simp [lines, ih, comma]

end Tree

/-- Parts between brackets. -/
theorem enclose_eq (openWith closeWith : String) (depth : Nat) (parts : List (List Char)) :
    enclose openWith closeWith depth (parts.map String.ofList) =
      String.ofList (openWith.toList ++ Tree.lines true (depth + 1) parts ++ Tree.lastLine depth parts.isEmpty ++
        closeWith.toList) := by
  rw [← String.toList_inj, String.toList_ofList]
  cases parts with
  | nil => simp [enclose, Tree.lines, Tree.lastLine]
  | cons part rest =>
    simp [enclose, Tree.lines, Tree.lines_false, Tree.lastLine, Tree.line, Tree.comma, List.flatMap_map]

theorem scalar?_eq (depth : Nat) (s : Scalar) :
    scalar? s = (tree? (.scalar s)).map fun t => String.ofList (t.chars depth) := by
  cases s with
  | text s => simp [scalar?, tree?, Except.map, Tree.chars]
  | _ =>
    simp only [scalar?, tree?]
    cases word? _ <;> simp [Except.map, Tree.chars]

theorem key?_eq (k : Scalar) : key? k = (keyText? k).map literal := by
  cases k <;> rfl

mutual

/-- **The text of a value** is the text of its tree. -/
theorem renderAt?_eq (depth : Nat) (v : Value) :
    renderAt? depth v = (tree? v).map fun t => String.ofList (t.chars depth) := by
  match v with
  | .scalar s => rw [renderAt?, scalar?_eq depth]
  | .list _ items =>
    rw [renderAt?, renderItems?_eq, tree?]
    cases trees? items with
    | error e => rfl
    | ok trees =>
      simp only [Except.map, Tree.chars, Tree.itemsChars_eq]
      have := enclose_eq "[" "]" depth (trees.map (Tree.chars (depth + 1)))
      simpa [List.map_map] using this
  | .mapping _ entries =>
    rw [renderAt?, renderEntries?_eq, tree?]
    cases entryTrees? entries with
    | error e => rfl
    | ok trees =>
      simp only [Except.map, Tree.chars, Tree.entriesChars_eq]
      have := enclose_eq "\x7b" "\x7d" depth (trees.map (Tree.entryChars (depth + 1)))
      simpa [List.map_map] using this
  | .set _ _ => rfl
  | .knot _ body => rw [renderAt?, renderAt?_eq depth body, tree?]
  | .again _ => rfl

theorem renderItems?_eq (depth : Nat) (items : List Value) : renderItems? depth items =
    (trees? items).map (List.map (String.ofList ∘ Tree.chars depth)) := by
  match items with
  | [] => rfl
  | v :: rest =>
    rw [renderItems?, renderAt?_eq depth v, renderItems?_eq depth rest, trees?]
    cases tree? v with
    | error e => rfl
    | ok t =>
      cases trees? rest with
      | error e => rfl
      | ok trees => rfl

theorem renderEntries?_eq (depth : Nat) (entries : List (Scalar × Value)) : renderEntries? depth entries =
    (entryTrees? entries).map (List.map (String.ofList ∘ Tree.entryChars depth)) := by
  match entries with
  | [] => rfl
  | (k, v) :: rest =>
    rw [renderEntries?, renderAt?_eq depth v, renderEntries?_eq depth rest, entryTrees?, key?_eq]
    cases keyText? k with
    | error e => rfl
    | ok key =>
      cases tree? v with
      | error e => rfl
      | ok t =>
        cases entryTrees? rest with
        | error e => rfl
        | ok trees =>
          simp [Except.map, bind, Except.bind, pure, Except.pure, Tree.entryChars, ← String.toList_inj]

end

end Json

end SchemaClosure
