import SchemaClosure.Proofs.Yaml.Reading
import SchemaClosure.Yaml.Value

/-!
# The value of a JSON text

What a JSON text denotes in YAML is the value of its tree (`parse_chars`): words take the values they are read as,
and keys are put one after the other. Nothing in it is shared, so that no value has a mark and none holds itself.
-/

namespace SchemaClosure

namespace Json.Tree

mutual

/-- The value that a tree is read as. -/
def value : Tree → Value
  | .word w => .scalar ((wordValue? w).toOption.getD .null)
  | .literal s => .text (Text.units s)
  | .list items => .list none (itemValues items)
  | .mapping entries => .mapping none (Mapping.ofEntries (entryValues entries))

/-- The values of the items of a list. -/
def itemValues : List Tree → List Value
  | [] => []
  | t :: rest => t.value :: itemValues rest

/-- The entries of a mapping with the values that they are read as. -/
def entryValues : List (String × Tree) → List (Scalar × Value)
  | [] => []
  | (k, t) :: rest => (.text (Text.units k), t.value) :: entryValues rest

end

end Json.Tree

namespace Yaml

open Json (Tree)
open Json.Tree (itemValues entryValues)

/-! ## Values of nodes -/

namespace Graph

/-- The value of a node where nothing is shared. Parts have greater numbers than what holds them, which bounds
the depth. -/
def value (g : Graph) : Nat → Nat → Value
  | 0, _ => .null
  | depth + 1, n =>
    match g.part n with
    | .scalar s => .scalar s
    | .items parts => .list none (parts.map (g.value depth))
    | .entries parts => .mapping none (parts.map fun entry => (entry.1, g.value depth entry.2))
    | _ => .null

end Graph

theorem map_put {α β : Type} (f : α → β) (key : Scalar) (a : α) (entries : List (Scalar × α)) :
    (key.put a entries).map (fun entry => (entry.1, f entry.2)) =
      key.put (f a) (entries.map fun entry => (entry.1, f entry.2)) := by
  induction entries with
  | nil => rfl
  | cons entry rest ih =>
    simp only [Scalar.put, List.map_cons]
    split
    · rfl
    · rw [List.map_cons, ih]

mutual

/-- The value of a node that stands for a tree is that of the tree. -/
theorem value_of_spells {g : Graph} (t : Tree) {n : Nat} (h : Spells g n t) (depth : Nat)
    (hdepth : g.nodes.size ≤ n + depth) : g.value depth n = t.value := by
  have hlt := Reading.lt_size_of_spells h
  obtain ⟨depth, rfl⟩ : ∃ others, depth = others + 1 := ⟨depth - 1, by omega⟩
  match t with
  | .word w =>
    obtain ⟨-, hnode, s, hs⟩ := h
    have hscalar : Reading.IsScalar g n s := ⟨_, _, hnode, hs⟩
    rw [Graph.value, hscalar.part, Json.Tree.value, hs]
    rfl
  | .literal s =>
    rw [Graph.value, (Reading.isScalar_of_spellsText h).part, Json.Tree.value]
  | .list items =>
    obtain ⟨-, parts, hnode, hparts⟩ := h
    have hpart : g.part n = .items parts := by rw [Graph.part, hnode]
    rw [Graph.value, hpart, Json.Tree.value]
    exact congrArg _ (values_of_spellsItems items hparts (by omega))
  | .mapping entries =>
    obtain ⟨-, parts, hnode, hparts⟩ := h
    have hpart : g.part n = .entries (g.keyed parts []) := by rw [Graph.part, hnode]
    rw [Graph.value, hpart, Json.Tree.value]
    exact congrArg _ (values_of_spellsEntries entries hparts [] (by omega))

theorem values_of_spellsItems {g : Graph} (items : List Tree) {n : Nat} {parts : List Nat}
    (h : SpellsItems g n parts items) {depth : Nat} (hdepth : g.nodes.size ≤ n + 1 + depth) :
    parts.map (g.value depth) = itemValues items := by
  match items with
  | [] =>
    obtain rfl : parts = [] := h
    rfl
  | t :: rest =>
    obtain ⟨m, more, rfl, hm, ht, hrest⟩ := h
    rw [List.map_cons, itemValues, value_of_spells t ht depth (by omega), values_of_spellsItems rest hrest hdepth]

theorem values_of_spellsEntries {g : Graph} (entries : List (String × Tree)) {n : Nat} {parts : List (Nat × Nat)}
    (h : SpellsEntries g n parts entries) (before : List (Scalar × Nat)) {depth : Nat}
    (hdepth : g.nodes.size ≤ n + 1 + depth) :
    (g.keyed parts before).map (fun entry => (entry.1, g.value depth entry.2)) =
      Mapping.update (before.map fun entry => (entry.1, g.value depth entry.2)) (entryValues entries) := by
  match entries with
  | [] =>
    obtain rfl : parts = [] := h
    rfl
  | (s, t) :: rest =>
    obtain ⟨k, m, more, rfl, hk, hm, hs, ht, hrest⟩ := h
    have htext : g.nodeText k = Text.units s := by rw [Graph.nodeText, hs.2]
    have hkeyed : g.keyed ((k, m) :: more) before = g.keyed more ((Scalar.text (Text.units s)).put m before) := by
      rw [Graph.keyed, List.foldl_cons, htext, Graph.keyed]
    rw [hkeyed, values_of_spellsEntries rest hrest _ hdepth, map_put, value_of_spells t ht depth (by omega)]
    rfl

end

/-! ## Putting values together -/

namespace Reading

variable {g : Graph} {r : Reading}

/-- The values that are put together are those of the nodes. -/
def Keeps (g : Graph) (known : Known) : Prop :=
  ∀ n t v, Spells g n t → (known[n]?).join = some v → v = t.value

theorem run_bind {σ α β : Type} {x : StateM σ α} {f : α → StateM σ β} {s s' : σ} {a : α} (h : x.run s = (a, s')) :
    (x >>= f).run s = (f a).run s' := by
  rw [StateT.run_bind, h]
  rfl

/-- A value that is put together is kept. -/
theorem Keeps.put {known : Known} (h : Keeps g known) {n : Nat} {t : Tree} (hspells : Spells g n t) :
    Keeps g (known.setIfInBounds n (some t.value)) := by
  intro m t' v ht' hv
  rw [Array.getElem?_setIfInBounds] at hv
  split at hv
  · rename_i hsame
    subst hsame
    split at hv
    · cases hv
      have hdepth : g.nodes.size ≤ n + g.nodes.size := Nat.le_add_left _ _
      rw [← value_of_spells t hspells _ hdepth, value_of_spells t' ht' _ hdepth]
    · cases hv
  · exact h m t' v ht' hv

section

variable {around : List Nat} {known known' : Known} {n : Nat}

end

end Reading

end Yaml

end SchemaClosure
