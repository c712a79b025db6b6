import SchemaClosure.Inspect.Listing

/-!
# The items of a listing in preorder

What a listing shows are items: the schema, its namespaces and types, and their fields. Each stands at a path, the
numbers of the parts that lead to it from what is listed, and below something whose name it shows (`Item.at?`).
`Item.visits` are all of them in preorder: the paths ascend in lexicographic order (`Item.ascending_visits`), and what
is visited at a path is what stands there (`Item.mem_visits_iff`), so that every item is visited once.
-/

namespace SchemaClosure

namespace Listing

/-- What has a block in a listing. -/
inductive Item where
  | root (schema : Schema)
  | node (node : Node)
  | field (f : Field)

/-- An item at a path, below what `holder` names. -/
structure Visit where
  path : List Nat
  holder : String
  item : Item

namespace Visit

/-- The visit seen from above, where it is in the part of a number. -/
def under (k : Nat) (v : Visit) : Visit := { v with path := k :: v.path }

/-- The visits of parts with numbers from `k` on. -/
def below (k : Nat) : List (List Visit) → List Visit
  | [] => []
  | visits :: rest => visits.map (under k) ++ below (k + 1) rest

theorem mem_below_iff {k : Nat} {parts : List (List Visit)} {v : Visit} :
    v ∈ below k parts ↔ ∃ n visits w, parts[n]? = some visits ∧ w ∈ visits ∧ v = under (k + n) w := by
  induction parts generalizing k with
  | nil => simp [below]
  | cons visits rest ih =>
    rw [below, List.mem_append, List.mem_map, ih]
    constructor
    · rintro (⟨w, hw, rfl⟩ | ⟨n, visits, w, hvisits, hw, rfl⟩)
      · exact ⟨0, visits, w, rfl, hw, rfl⟩
      · exact ⟨n + 1, visits, w, hvisits, hw, by rw [Nat.add_assoc, Nat.add_comm 1 n]⟩
    · rintro ⟨n, visits, w, hvisits, hw, rfl⟩
      cases n with
      | zero =>
        cases hvisits
        exact .inl ⟨w, hw, rfl⟩
      | succ n => exact .inr ⟨n, visits, w, hvisits, hw, by rw [Nat.add_assoc, Nat.add_comm 1 n]⟩

/-- Visits whose paths ascend. -/
def Ascending (visits : List Visit) : Prop := (visits.map path).Pairwise (· < ·)

theorem ascending_below {k : Nat} {parts : List (List Visit)} (h : ∀ visits ∈ parts, Ascending visits) :
    Ascending (below k parts) := by
  induction parts generalizing k with
  | nil => exact .nil
  | cons visits rest ih =>
    rw [List.forall_mem_cons] at h
    rw [Ascending, below, List.map_append, List.pairwise_append]
    refine ⟨?_, ih h.2, ?_⟩
    · have hascending := h.1
      rw [Ascending, List.pairwise_map] at hascending
      rw [List.map_map, List.pairwise_map]
      exact hascending.imp fun hlt => List.cons_lt_cons_iff.2 (.inr ⟨rfl, hlt⟩)
    · intro p hp q hq
      obtain ⟨v, hv, rfl⟩ := List.mem_map.1 hp
      obtain ⟨w, hw, rfl⟩ := List.mem_map.1 hq
      obtain ⟨v, -, rfl⟩ := List.mem_map.1 hv
      obtain ⟨n, visits, w, -, -, rfl⟩ := mem_below_iff.1 hw
      exact List.cons_lt_cons_iff.2 (.inl (by omega))

end Visit

namespace Item

/-! ## Parts -/

/-- What stands directly below an item, in order. -/
def parts : Item → List Item
  | .root schema => schema.namespaces.map fun ns => .node ns.toNode
  | .node (.type t) => t.fields.map .field
  | .node (.space _ _ _ children) => children.map .node
  | .field _ => []

/-- The name under which an item holds its parts. -/
def label : Item → String
  | .root _ => rootLabel
  | .node (.type t) => t.fullName
  | .node (.space _ fullName _ _) => fullName
  | .field f => f.name

theorem sizeOf_toNode (ns : Namespace) : sizeOf ns.toNode = sizeOf ns := by
  cases ns
  simp [Namespace.toNode]

theorem sizeOf_part {item part : Item} (h : part ∈ item.parts) : sizeOf part < sizeOf item := by
  match item with
  | .root schema =>
    obtain ⟨ns, hns, rfl⟩ := List.mem_map.1 h
    have hlt := List.sizeOf_lt_of_mem hns
    cases schema
    simp only [node.sizeOf_spec, root.sizeOf_spec, Schema.mk.sizeOf_spec, sizeOf_toNode] at hlt ⊢
    omega
  | .node (.type t) =>
    obtain ⟨f, hf, rfl⟩ := List.mem_map.1 h
    have hlt := List.sizeOf_lt_of_mem hf
    cases t
    simp only [node.sizeOf_spec, field.sizeOf_spec, Node.type.sizeOf_spec, TypeDecl.mk.sizeOf_spec] at hlt ⊢
    omega
  | .node (.space name fullName options children) =>
    obtain ⟨child, hchild, rfl⟩ := List.mem_map.1 h
    have hlt := List.sizeOf_lt_of_mem hchild
    simp only [node.sizeOf_spec, Node.space.sizeOf_spec] at hlt ⊢
    omega
  | .field f => cases h

/-- What holds of an item when it holds of its parts holds of all items. -/
theorem induct {P : Item → Prop} (step : ∀ item, (∀ part ∈ item.parts, P part) → P item) (item : Item) : P item :=
  step item fun part _ => induct step part
  termination_by sizeOf item
  decreasing_by exact sizeOf_part ‹_›

/-- What stands at a path below an item, with the name of what holds it; `holder` holds the item itself. -/
def at? (holder : String) : Item → List Nat → Option (String × Item)
  | item, [] => some (holder, item)
  | item, k :: path => item.parts[k]?.bind fun part => part.at? item.label path

/-- The name of what holds an item is that of what stands above it. -/
theorem at?_concat (holder : String) (item : Item) (path : List Nat) (k : Nat) :
    item.at? holder (path ++ [k]) = (item.at? holder path).bind fun (_, above) =>
      above.parts[k]?.map fun part => (above.label, part) := by
  induction path generalizing holder item with
  | nil => cases h : item.parts[k]? <;> simp [at?, h]
  | cons n path ih => cases h : item.parts[n]? <;> simp [at?, h, ih]

/-! ## Visits -/

/-- An item and everything below it in preorder: each item before its parts, and these in order. -/
def visits (holder : String) (item : Item) : List Visit :=
  ⟨[], holder, item⟩ :: Visit.below 0 (item.parts.attach.map fun ⟨part, _⟩ => part.visits item.label)
  termination_by sizeOf item
  decreasing_by exact sizeOf_part ‹_›

theorem visits_eq (holder : String) (item : Item) :
    item.visits holder = ⟨[], holder, item⟩ :: Visit.below 0 (item.parts.map (visits item.label)) := by
  rw [visits, List.attach_map_val (f := visits item.label)]

/-- What is visited at a path is what stands there, below what it is said to be below. -/
theorem mem_visits_iff {holder : String} {item : Item} {v : Visit} :
    v ∈ item.visits holder ↔ item.at? holder v.path = some (v.holder, v.item) := by
  induction item using induct generalizing holder v with
  | step item ih =>
    obtain ⟨path, owner, found⟩ := v
    rw [visits_eq, List.mem_cons, Visit.mem_below_iff]
    cases path with
    | nil => simp [at?, Visit.under, eq_comm]
    | cons k path =>
      simp only [Visit.mk.injEq, reduceCtorEq, false_and, false_or, List.getElem?_map, Nat.zero_add, Visit.under, at?,
        List.cons.injEq]
      constructor
      · rintro ⟨n, visits, w, hvisits, hw, ⟨rfl, rfl⟩, rfl, rfl⟩
        obtain ⟨part, hpart, rfl⟩ := Option.map_eq_some_iff.1 hvisits
        rw [hpart]
        exact (ih part (List.mem_of_getElem? hpart)).1 hw
      · intro h
        obtain ⟨part, hpart, hfound⟩ := Option.bind_eq_some_iff.1 h
        refine ⟨k, _, ⟨path, owner, found⟩, ?_, (ih part (List.mem_of_getElem? hpart)).2 hfound, ⟨rfl, rfl⟩, rfl, rfl⟩
        rw [hpart]
        rfl

/-- What is visited below the top stands directly below another visited item, which gives its name to it. -/
theorem exists_above {holder : String} {item : Item} {v : Visit} (hv : v ∈ item.visits holder) {path : List Nat}
    {k : Nat} (hpath : v.path = path ++ [k]) :
    ∃ above ∈ item.visits holder, above.path = path ∧ above.item.parts[k]? = some v.item ∧
      v.holder = above.item.label := by
  have hfound := mem_visits_iff.1 hv
  rw [hpath, at?_concat] at hfound
  obtain ⟨⟨owner, above⟩, habove, hpart⟩ := Option.bind_eq_some_iff.1 hfound
  obtain ⟨part, hpart, heq⟩ := Option.map_eq_some_iff.1 hpart
  obtain ⟨hholder, hitem⟩ := Prod.mk.inj heq
  exact ⟨⟨path, owner, above⟩, mem_visits_iff.2 habove, rfl, hitem ▸ hpart, hholder.symm⟩

/-- Visits go through the paths in their order, so that no path is visited twice. -/
theorem ascending_visits (holder : String) (item : Item) : Visit.Ascending (item.visits holder) := by
  induction item using induct generalizing holder with
  | step item ih =>
    rw [visits_eq, Visit.Ascending, List.map_cons, List.pairwise_cons]
    refine ⟨fun path hpath => ?_, Visit.ascending_below fun visits hvisits => ?_⟩
    · obtain ⟨v, hv, rfl⟩ := List.mem_map.1 hpath
      obtain ⟨n, visits, w, -, -, rfl⟩ := Visit.mem_below_iff.1 hv
      exact List.nil_lt_cons ..
    · obtain ⟨part, hpart, rfl⟩ := List.mem_map.1 hvisits
      exact ih part hpart item.label

end Item

end Listing

end SchemaClosure
