import Mathlib.Data.List.Nodup
import SchemaClosure.Proofs.Schema.Address

/-!
# The types of a schema, namespace by namespace

`Schema.types` works off a list of waiting namespaces. It yields the types in the order of the recursion
through the tree (`types_eq_allTypesWithin`), which is that of the namespaces (`types_eq_flatMap`), and so
exactly the types that some namespace holds (`mem_types`). When they say where they stand, each is found at
its address and at no other (`type?_eq_some_iff_address`), and it is yielded once (`addresses_nodup`).
-/

namespace SchemaClosure

mutual

/-- The types of the namespace that a node is, then those of the namespaces that it holds. -/
def Node.typesWithin : Node → List TypeDecl
  | .type _ => []
  | .space _ _ _ children => children.filterMap Node.type? ++ Node.allTypesWithin children

/-- The types within the namespaces among some nodes. -/
def Node.allTypesWithin : List Node → List TypeDecl
  | [] => []
  | node :: rest => node.typesWithin ++ Node.allTypesWithin rest

end

theorem Node.allTypesWithin_append (a b : List Node) :
    Node.allTypesWithin (a ++ b) = Node.allTypesWithin a ++ Node.allTypesWithin b := by
  induction a with
  | nil => rfl
  | cons node rest ih => simp [Node.allTypesWithin, ih]

/-- Types among the nodes hold no types of their own. -/
theorem Node.allTypesWithin_spaces (nodes : List Node) :
    Node.allTypesWithin ((nodes.filterMap Node.space?).map Namespace.toNode) =
      Node.allTypesWithin nodes := by
  induction nodes with
  | nil => rfl
  | cons node rest ih =>
    cases node with
    | type t => simpa [List.filterMap_cons, Node.space?, Node.allTypesWithin, Node.typesWithin] using ih
    | space name fullName options children =>
      simp [Node.space?, Namespace.toNode, Node.allTypesWithin, ih]

theorem Namespace.typesFrom_eq (waiting : List Namespace) :
    typesFrom waiting = Node.allTypesWithin (waiting.map Namespace.toNode) := by
  induction waiting using typesFrom.induct with
  | case1 => simp [typesFrom, Node.allTypesWithin]
  | case2 ns waiting ih =>
    rw [typesFrom, ih, List.map_append, Node.allTypesWithin_append, spaces, Node.allTypesWithin_spaces]
    simp [Node.allTypesWithin, Namespace.toNode, Node.typesWithin, types]

theorem Schema.types_eq_allTypesWithin (schema : Schema) :
    schema.types = Node.allTypesWithin (schema.namespaces.map Namespace.toNode) :=
  Namespace.typesFrom_eq _

mutual

theorem Node.typesWithin_eq_flatMap (node : Node) :
    node.typesWithin = node.spaces.flatMap Namespace.types := by
  match node with
  | .type _ => rfl
  | .space name fullName options children =>
    have ih := Node.allTypesWithin_eq_flatMap children
    rw [Node.typesWithin, Node.spaces, List.flatMap_cons, ih, Namespace.types]

theorem Node.allTypesWithin_eq_flatMap (nodes : List Node) :
    Node.allTypesWithin nodes = (Node.allSpaces nodes).flatMap Namespace.types := by
  match nodes with
  | [] => rfl
  | node :: rest =>
    have ih := Node.typesWithin_eq_flatMap node
    have ihRest := Node.allTypesWithin_eq_flatMap rest
    rw [Node.allTypesWithin, Node.allSpaces, List.flatMap_append, ih, ihRest]

end

theorem Node.mem_allTypesWithin {nodes : List Node} {t : TypeDecl} :
    t ∈ Node.allTypesWithin nodes ↔ ∃ ns ∈ Node.allSpaces nodes, t ∈ ns.types := by
  rw [Node.allTypesWithin_eq_flatMap, List.mem_flatMap]

namespace Schema

variable {schema : Schema}

theorem types_eq_flatMap (schema : Schema) : schema.types = schema.spaces.flatMap Namespace.types := by
  rw [types_eq_allTypesWithin, Node.allTypesWithin_eq_flatMap, spaces]

theorem mem_types {t : TypeDecl} : t ∈ schema.types ↔ ∃ ns ∈ schema.spaces, t ∈ ns.types := by
  rw [types_eq_flatMap, List.mem_flatMap]

theorem mem_types_iff_at {t : TypeDecl} :
    t ∈ schema.types ↔ ∃ path ns, schema.At path ns ∧ t ∈ ns.types := by
  simp only [mem_types, mem_spaces_iff_at]
  constructor
  · rintro ⟨ns, ⟨path, hat⟩, ht⟩
    exact ⟨path, ns, hat, ht⟩
  · rintro ⟨path, ns, hat, ht⟩
    exact ⟨ns, ⟨path, hat⟩, ht⟩

/-! ## The addresses of the types -/

/-- The type at an address, by its path. -/
theorem type?_eq_some_iff_at (wf : schema.WellFormed) {a : TypeAddress} {t : TypeDecl} :
    schema.type? a = some t ↔ ∃ path, Text.join "." path = a.owner ∧ t.name = a.name ∧
      ∃ ns, schema.At path ns ∧ t ∈ ns.types := by
  rw [type?_eq_some_iff wf]
  constructor
  · rintro ⟨ns, ⟨path, hat, hpath⟩, hnode, hname⟩
    exact ⟨path, hpath, hname, ns, hat, Namespace.mem_types.2 hnode⟩
  · rintro ⟨path, hpath, hname, ns, hat, ht⟩
    exact ⟨ns, ⟨path, hat, hpath⟩, Namespace.mem_types.1 ht, hname⟩

/-- Every type says where it stands. -/
def Owned (schema : Schema) : Prop := ∀ ns ∈ schema.spaces, ∀ t ∈ ns.types, t.owner = ns.fullName

/-- What stands at an address is the type that has it. -/
theorem type?_eq_some_iff_address (wf : schema.WellFormed) (howned : schema.Owned) {a : TypeAddress}
    {t : TypeDecl} : schema.type? a = some t ↔ t ∈ schema.types ∧ t.address = a := by
  rw [type?_eq_some_iff wf, mem_types]
  constructor
  · rintro ⟨ns, hstands, hnode, hname⟩
    obtain ⟨hns, hfull⟩ := (stands_iff wf.toConsistent).1 hstands
    have ht := Namespace.mem_types.2 hnode
    refine ⟨⟨ns, hns, ht⟩, ?_⟩
    have howner : t.owner = a.owner := (howned ns hns t ht).trans hfull
    have hname : t.name = a.name := hname
    rw [TypeDecl.address, howner, hname]
  · rintro ⟨⟨ns, hns, ht⟩, rfl⟩
    have hstands := (stands_iff wf.toConsistent).2 ⟨hns, (howned ns hns t ht).symm⟩
    exact ⟨ns, hstands, Namespace.mem_types.1 ht, rfl⟩

/-- The types of a namespace are its children without the namespaces. -/
theorem map_types_sublist (ns : Namespace) : (ns.types.map Node.type).Sublist ns.children := by
  unfold Namespace.types
  induction ns.children with
  | nil => exact List.Sublist.refl _
  | cons node rest ih =>
    cases node with
    | type t => exact ih.cons_cons _
    | space name fullName options children => exact ih.cons _

/-- The types of a namespace have distinct names if its children have. -/
theorem names_types_nodup (ns : Namespace) (h : (ns.children.map Node.name).Nodup) :
    (ns.types.map TypeDecl.name).Nodup := by
  have hnames := h.sublist ((map_types_sublist ns).map Node.name)
  rwa [List.map_map] at hnames

/-- The addresses of all types are distinct: in one namespace the names are, and across namespaces the full
names are. -/
theorem addresses_nodup (wf : schema.WellFormed) (howned : schema.Owned) :
    (schema.types.map TypeDecl.address).Nodup := by
  rw [types_eq_flatMap, List.map_flatMap]
  refine List.pairwise_flatMap.2 ⟨fun ns hns => ?_, ?_⟩
  · refine List.Nodup.of_map TypeAddress.name ?_
    rw [List.map_map]
    exact names_types_nodup ns (wf.children_nodup ns hns)
  · refine (fullNames_distinct wf).imp_of_mem fun {a b} ha hb hne => ?_
    intro x hx y hy heq
    obtain ⟨t, ht, rfl⟩ := List.mem_map.1 hx
    obtain ⟨u, hu, rfl⟩ := List.mem_map.1 hy
    have howner : t.owner = u.owner := congrArg TypeAddress.owner heq
    exact hne (by rw [← howned a ha t ht, ← howned b hb u hu, howner])

end Schema

end SchemaClosure
