import SchemaClosure.Proofs.Inspect.Preorder
import SchemaClosure.Proofs.Number.Numeral
import SchemaClosure.Proofs.Text.Joining

/-!
# A listing shows the items in preorder

A listing joins texts of several lines: the block of an item is followed by the texts of its parts. Joined at once,
these are the lines of the blocks of all items in preorder (`Item.text_eq_lines`), which makes the listing of a schema,
namespace or type one flat list (`Subject.listing_eq_preorder`). There is no listing where an integer has too many
digits (`Subject.listing_missing`).
-/

namespace SchemaClosure

namespace Listing

/-! ## Blocks -/

namespace Item

/-- The word for a kind of types. -/
def kindWord : Kind → String
  | .enum => "Enum"
  | .message => "Message"

/-- The title of an item below what `holder` names. -/
def title (holder : String) : Item → String
  | .root _ => "Root"
  | .node (.space _ fullName _ _) => s!"Namespace {fullName}"
  | .node (.type t) => s!"{kindWord t.kind} {t.fullName}"
  | .field f => s!"Field {holder}.{f.name}"

/-- What the block of an item shows besides its title and its holder: captions with their text. -/
def details : Item → List (String × String)
  | .root _ => []
  | .node (.space _ _ _ _) => []
  | .node (.type t) =>
    match t.kind with
    | .enum => [("values: ", Text.join ", " (t.values.map fun (name, n) => s!"{name}={n}"))]
    | .message => []
  | .field f => ("type  : ", fieldType f) :: f.resolved.toList.map fun key => ("target: ", key.text)

/-- The integers in the block of an item. -/
def numbers : Item → List Int
  | .root _ => []
  | .node (.space _ _ _ _) => []
  | .node (.type t) =>
    match t.kind with
    | .enum => t.values.map (·.2)
    | .message => []
  | .field f => f.id.toList

/-- The listing of an item at a depth. -/
def text (styled : Bool) (depth : Nat) (holder : String) : Item → String
  | .root schema =>
    Text.join "\n" <| block styled depth "Root" holder []
      ++ nodes styled (depth + 1) rootLabel (schema.namespaces.map Namespace.toNode)
  | .node n => Listing.node styled depth holder n
  | .field f => Listing.field styled depth holder f

end Item

theorem nodes_eq_map (styled : Bool) (depth : Nat) (holder : String) (l : List Node) :
    nodes styled depth holder l = l.map (node styled depth holder) := by
  induction l with
  | nil => rfl
  | cons n rest ih => rw [nodes, ih, List.map_cons]

theorem Item.text_eq_join (styled : Bool) (depth : Nat) (holder : String) (item : Item) :
    item.text styled depth holder = Text.join "\n" (block styled depth (item.title holder) holder item.details ++
      item.parts.map (text styled (depth + 1) item.label)) := by
  match item with
  | .root schema => simp [text, title, details, parts, label, nodes_eq_map, Function.comp_def]
  | .node (.space name fullName options children) =>
    simp [text, title, details, parts, label, Listing.node, nodes_eq_map, Function.comp_def]
  | .node (.type t) =>
    cases h : t.kind <;>
      simp [text, title, details, parts, label, Listing.node, type, h, kindWord, Function.comp_def]
  | .field f => simp [text, title, details, parts, Listing.field]

/-- The lines of the block of a visited item, `depth` deeper than its path is long. -/
def Visit.block (styled : Bool) (depth : Nat) (v : Visit) : List String :=
  Listing.block styled (depth + v.path.length) (v.item.title v.holder) v.holder v.item.details

/-- The lines of the blocks of visited items. -/
def lines (styled : Bool) (depth : Nat) (visits : List Visit) : List String := visits.flatMap (Visit.block styled depth)

theorem lines_append (styled : Bool) (depth : Nat) (a b : List Visit) :
    lines styled depth (a ++ b) = lines styled depth a ++ lines styled depth b :=
  List.flatMap_append

theorem lines_under (styled : Bool) (depth k : Nat) (visits : List Visit) :
    lines styled depth (visits.map (Visit.under k)) = lines styled (depth + 1) visits := by
  rw [lines, List.flatMap_map, lines]
  congr 1
  funext v
  simp [Visit.under, Visit.block, Nat.add_assoc, Nat.add_comm 1]

theorem lines_below (styled : Bool) (depth k : Nat) (parts : List (List Visit)) :
    lines styled depth (Visit.below k parts) = (parts.map (lines styled (depth + 1))).flatten := by
  induction parts generalizing k with
  | nil => rfl
  | cons visits rest ih => rw [Visit.below, lines_append, lines_under, ih, List.map_cons, List.flatten_cons]

theorem lines_visits (styled : Bool) (depth : Nat) (holder : String) (item : Item) :
    lines styled depth (item.visits holder) = block styled depth (item.title holder) holder item.details ++
      (item.parts.map fun part => lines styled (depth + 1) (part.visits item.label)).flatten := by
  rw [Item.visits_eq, lines, List.flatMap_cons, ← lines, lines_below, List.map_map]
  rfl

theorem block_ne_nil (styled : Bool) (depth : Nat) (title holder : String) (more : List (String × String)) :
    block styled depth title holder more ≠ [] := by
  simp [block]

theorem lines_visits_ne_nil (styled : Bool) (depth : Nat) (holder : String) (item : Item) :
    lines styled depth (item.visits holder) ≠ [] := by
  rw [lines_visits]
  exact List.append_ne_nil_of_left_ne_nil (block_ne_nil _ _ _ _ _) _

/-- **A listing is one flat list**: the lines of the blocks of all items in preorder. -/
theorem Item.text_eq_lines (styled : Bool) (depth : Nat) (holder : String) (item : Item) :
    item.text styled depth holder = Text.join "\n" (lines styled depth (item.visits holder)) := by
  induction item using Item.induct generalizing depth holder with
  | step item ih =>
    have hparts : item.parts.map (text styled (depth + 1) item.label) =
        (item.parts.map fun part => lines styled (depth + 1) (part.visits item.label)).map (Text.join "\n") := by
      rw [List.map_map]
      exact List.map_congr_left fun part hpart => ih part hpart (depth + 1) item.label
    have hne : ∀ piece ∈ item.parts.map fun part => lines styled (depth + 1) (part.visits item.label), piece ≠ [] := by
      intro piece hpiece
      obtain ⟨part, -, rfl⟩ := List.mem_map.1 hpiece
      exact lines_visits_ne_nil _ _ _ _
    rw [text_eq_join, hparts, Text.join_flatten _ hne, lines_visits]

/-! ## Integers -/

/-- Whether the integers in the block of a visited item have a text. -/
def Visit.isWritable (v : Visit) : Bool := v.item.numbers.all fun n => (Scalar.int n).isWritable

/-- Whether the integers in the listing of an item have a text. -/
def Item.isWritable : Item → Bool
  | .root schema => areWritable (schema.namespaces.map Namespace.toNode)
  | .node n => Listing.isWritable n
  | .field f => f.id.toList.all fun n => (Scalar.int n).isWritable

theorem areWritable_eq_all (l : List Node) : areWritable l = l.all Listing.isWritable := by
  induction l with
  | nil => rfl
  | cons n rest ih => rw [areWritable, ih, List.all_cons]

theorem Item.isWritable_eq (item : Item) :
    item.isWritable = ((item.numbers.all fun n => (Scalar.int n).isWritable) && item.parts.all isWritable) := by
  match item with
  | .root schema => simp [isWritable, numbers, parts, areWritable_eq_all, Function.comp_def]
  | .node (.space name fullName options children) =>
    simp [isWritable, numbers, parts, Listing.isWritable, areWritable_eq_all, Function.comp_def]
  | .node (.type t) =>
    have hfields : (t.fields.filterMap (·.id)).all (fun n => (Scalar.int n).isWritable) =
        t.fields.all fun f => f.id.toList.all fun n => (Scalar.int n).isWritable := by
      induction t.fields with
      | nil => rfl
      | cons f rest ih => cases h : f.id <;> simp [h, ih]
    simp only [isWritable, Listing.isWritable, typeIsWritable, List.all_append, hfields, numbers, parts, List.all_map]
    exact Bool.and_comm ..
  | .field f => simp [isWritable, numbers, parts]

theorem all_below (k : Nat) (parts : List (List Visit)) :
    (Visit.below k parts).all Visit.isWritable = parts.all (·.all Visit.isWritable) := by
  induction parts generalizing k with
  | nil => rfl
  | cons visits rest ih =>
    rw [Visit.below, List.all_append, ih, List.all_map, List.all_cons]
    rfl

theorem Item.isWritable_eq_all (holder : String) (item : Item) :
    item.isWritable = (item.visits holder).all Visit.isWritable := by
  induction item using Item.induct generalizing holder with
  | step item ih =>
    have hparts : item.parts.all isWritable =
        item.parts.all fun part => (part.visits item.label).all Visit.isWritable := by
      rw [Bool.eq_iff_iff, List.all_eq_true, List.all_eq_true]
      exact forall₂_congr fun part hpart => by rw [ih part hpart item.label]
    rw [isWritable_eq, hparts, visits_eq, List.all_cons, all_below, List.all_map]
    rfl

/-! ## What can be listed -/

/-- What has a listing of its own. -/
inductive Subject where
  | whole (schema : Schema)
  | space (ns : Namespace)
  | type (t : TypeDecl)

namespace Subject

/-- The listing of a subject whose integers all have a text. -/
def listing? (styled : Bool) : Subject → Except Unwritable String
  | .whole schema => schema.listing? styled
  | .space ns => ns.listing? styled
  | .type t => t.listing? styled

/-- The subject as an item. -/
def item : Subject → Item
  | .whole schema => .root schema
  | .space ns => .node ns.toNode
  | .type t => .node (.type t)

/-- What is shown as the holder of a subject. -/
def holder : Subject → String
  | .whole _ => "-"
  | .space ns => holderOf ns.fullName
  | .type t => t.owner

/-- A subject and everything below it, each item before its parts. -/
def preorder (n : Subject) : List Visit := n.item.visits n.holder

theorem listing?_eq_lines (styled : Bool) (n : Subject) :
    n.listing? styled =
      checked (n.preorder.all Visit.isWritable) (Text.join "\n" (lines styled 0 n.preorder)) := by
  rw [preorder, ← Item.isWritable_eq_all, ← Item.text_eq_lines]
  cases n <;> rfl

end Subject

/-- The lines of the block of a visited item: a title behind a connector, unless it stands at the top, then its holder
and what belongs to its kind, and an empty line. -/
def Visit.plainLines (v : Visit) : List String :=
  (connector v.path.length ++ v.item.title v.holder)
    :: (("parent: ", v.holder) :: v.item.details).map (fun (caption, text) => indent v.path.length ++ caption ++ text)
    ++ [""]

theorem Visit.block_false (v : Visit) : v.block false 0 = v.plainLines := by
  simp [block, Listing.block, plainLines, bold, gray, style]

/-- No integer that is shown for a subject has too many digits. -/
def Subject.Writable (n : Subject) : Prop :=
  ∀ v ∈ n.preorder, ∀ i ∈ v.item.numbers, i.natAbs < 10 ^ Numeral.maxDecimalDigits

instance (n : Subject) : Decidable n.Writable :=
  inferInstanceAs (Decidable (∀ v ∈ n.preorder, ∀ i ∈ v.item.numbers, i.natAbs < 10 ^ Numeral.maxDecimalDigits))

theorem Subject.all_isWritable_iff (n : Subject) : n.preorder.all Visit.isWritable = true ↔ n.Writable := by
  simp only [List.all_eq_true, Visit.isWritable, Scalar.isWritable, Numeral.isSome_text?_iff, Writable]

/-- **A listing is the preorder of its items.** It is the lines of the blocks of all items in preorder, and there is none
if one of their integers has too many digits. The paths of the items ascend, so none is shown twice; what is shown at a
path is what stands there, at the depth of its path; and the holder of what stands below the top is what stands above
it. -/
theorem Subject.listing_eq_preorder (n : Subject) :
    n.listing? false =
      (if n.Writable then .ok (Text.join "\n" (n.preorder.flatMap Visit.plainLines)) else .error .numberTooLong) ∧
    (n.preorder.map Visit.path).Pairwise (· < ·) ∧
    (∀ v, v ∈ n.preorder ↔ n.item.at? n.holder v.path = some (v.holder, v.item)) ∧
    ∀ v ∈ n.preorder, ∀ path k, v.path = path ++ [k] →
      ∃ above ∈ n.preorder, above.path = path ∧ above.item.parts[k]? = some v.item ∧ v.holder = above.item.label := by
  refine ⟨?_, Item.ascending_visits n.holder n.item, fun v => Item.mem_visits_iff, fun v hv path k hpath =>
    Item.exists_above hv hpath⟩
  have hlines : Visit.block false 0 = Visit.plainLines := funext Visit.block_false
  rw [listing?_eq_lines, lines, hlines, checked]
  exact if_congr n.all_isWritable_iff rfl rfl

/-- An enum whose value has one digit too many. -/
def vast : TypeDecl := ⟨"Size", "shop", .enum, [], [("L", 10 ^ Numeral.maxDecimalDigits)], []⟩

/-- An integer with too many digits leaves no listing. -/
theorem Subject.listing_missing :
    (Subject.type vast).listing? false ≠ .ok (Text.join "\n" ((Subject.type vast).preorder.flatMap Visit.plainLines)) := by
  have hwritable : ¬ (Subject.type vast).Writable := by
    intro h
    have hmem : (⟨[], "shop", .node (.type vast)⟩ : Visit) ∈ (Subject.type vast).preorder := by
      rw [Subject.preorder, Item.visits_eq]
      exact List.mem_cons_self
    have hvalue := h _ hmem (10 ^ Numeral.maxDecimalDigits) List.mem_cons_self
    rw [Int.natAbs_pow, show (10 : Int).natAbs = 10 from rfl] at hvalue
    exact Nat.lt_irrefl _ hvalue
  have hall : (Subject.type vast).preorder.all Visit.isWritable = false :=
    Bool.eq_false_iff.2 fun h => hwritable ((Subject.type vast).all_isWritable_iff.1 h)
  rw [listing?_eq_lines, hall]
  nofun

example : Namespace.listing? false ⟨"shop", "shop", [], [.type ⟨"Size", "shop", .enum, [], [("S", 0), ("L", 1)], []⟩]⟩ =
    .ok "Namespace shop\nparent: <root>\n\n└ Enum shop.Size\n  parent: shop\n  values: S=0, L=1\n" := by cbv

end Listing

end SchemaClosure
