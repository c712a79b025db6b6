import SchemaClosure.Proofs.Schema.MapTypes

/-!
# Types before namespaces

`Schema.typesFirst` moves the types of every namespace before the namespaces that it holds and keeps the
order otherwise. That is the order in which a schema is written. Nothing else depends on it: the types come
in the same order (`types_typesFirst`), and looking up finds the same (`space?_typesFirst`,
`type?_typesFirst`).
-/

namespace SchemaClosure

/-- The nodes with the types before the namespaces. -/
def Node.sorted (nodes : List Node) : List Node :=
  (nodes.filterMap Node.type?).map Node.type ++ (nodes.filterMap Node.space?).map Namespace.toNode

mutual

/-- A node where the types come first in every namespace. -/
def Node.typesFirst : Node → Node
  | .type t => .type t
  | .space name fullName options children =>
    .space name fullName options (Node.sorted (Node.allTypesFirst children))

/-- Some nodes where the types come first in every namespace. -/
def Node.allTypesFirst : List Node → List Node
  | [] => []
  | node :: rest => node.typesFirst :: Node.allTypesFirst rest

end

/-- A namespace where the types come first, and in all below it. -/
def Namespace.typesFirst (ns : Namespace) : Namespace :=
  { ns with children := Node.sorted (Node.allTypesFirst ns.children) }

/-- A schema where the types come first in every namespace. -/
def Schema.typesFirst (schema : Schema) : Schema :=
  ⟨schema.namespaces.map Namespace.typesFirst⟩

namespace Node

theorem sorted_perm (nodes : List Node) : (sorted nodes).Perm nodes := by
  induction nodes with
  | nil => exact .refl _
  | cons node rest ih =>
    cases node with
    | type t => exact ih.cons _
    | space name fullName options children =>
      -- the namespace moves behind all types
      have hmove : (sorted (.space name fullName options children :: rest)).Perm
          (.space name fullName options children :: sorted rest) := List.perm_middle
      exact hmove.trans (ih.cons _)

theorem filterMap_type?_sorted (nodes : List Node) :
    (sorted nodes).filterMap Node.type? = nodes.filterMap Node.type? := by
  have hspaces : ∀ spaces : List Namespace, (spaces.map Namespace.toNode).filterMap Node.type? = [] := by
    intro spaces
    induction spaces with
    | nil => rfl
    | cons ns rest ih => exact ih
  rw [sorted, List.filterMap_append, hspaces, List.append_nil, List.filterMap_map]
  exact List.filterMap_some

theorem filterMap_space?_sorted (nodes : List Node) :
    (sorted nodes).filterMap Node.space? = nodes.filterMap Node.space? := by
  have htypes : ∀ types : List TypeDecl, (types.map Node.type).filterMap Node.space? = [] := by
    intro types
    induction types with
    | nil => rfl
    | cons t rest ih => exact ih
  rw [sorted, List.filterMap_append, htypes, List.nil_append, List.filterMap_map]
  exact List.filterMap_some

theorem allTypesFirst_eq_map (nodes : List Node) : allTypesFirst nodes = nodes.map Node.typesFirst := by
  induction nodes with
  | nil => rfl
  | cons node rest ih => rw [allTypesFirst, ih, List.map_cons]

@[simp] theorem name_typesFirst (node : Node) : node.typesFirst.name = node.name := by
  cases node <;> rfl

@[simp] theorem type?_typesFirst (node : Node) : node.typesFirst.type? = node.type? := by
  cases node <;> rfl

@[simp] theorem space?_typesFirst (node : Node) :
    node.typesFirst.space? = node.space?.map Namespace.typesFirst := by
  cases node <;> rfl

theorem filterMap_type?_allTypesFirst (nodes : List Node) :
    (allTypesFirst nodes).filterMap Node.type? = nodes.filterMap Node.type? := by
  rw [allTypesFirst_eq_map, List.filterMap_map]
  exact congrArg nodes.filterMap (funext type?_typesFirst)

theorem filterMap_space?_allTypesFirst (nodes : List Node) :
    (allTypesFirst nodes).filterMap Node.space? =
      (nodes.filterMap Node.space?).map Namespace.typesFirst := by
  rw [allTypesFirst_eq_map, List.filterMap_map, List.map_filterMap]
  exact congrArg nodes.filterMap (funext space?_typesFirst)

theorem allTypesWithin_sorted (nodes : List Node) :
    allTypesWithin (sorted nodes) = allTypesWithin nodes := by
  have htypes : ∀ types : List TypeDecl, allTypesWithin (types.map Node.type) = [] := by
    intro types
    induction types with
    | nil => rfl
    | cons t rest ih => exact ih
  rw [sorted, allTypesWithin_append, htypes, List.nil_append, allTypesWithin_spaces]

mutual

theorem typesWithin_typesFirst (node : Node) : node.typesFirst.typesWithin = node.typesWithin := by
  match node with
  | .type t => rfl
  | .space name fullName options children =>
    rw [Node.typesFirst, typesWithin, typesWithin, filterMap_type?_sorted, filterMap_type?_allTypesFirst,
      allTypesWithin_sorted, allTypesWithin_allTypesFirst children]

theorem allTypesWithin_allTypesFirst (nodes : List Node) :
    allTypesWithin (allTypesFirst nodes) = allTypesWithin nodes := by
  match nodes with
  | [] => rfl
  | node :: rest =>
    rw [allTypesFirst, allTypesWithin, allTypesWithin, typesWithin_typesFirst node,
      allTypesWithin_allTypesFirst rest]

end

theorem mapAllTypes_sorted (g : TypeDecl → TypeDecl) (nodes : List Node) :
    mapAllTypes g (sorted nodes) = sorted (mapAllTypes g nodes) := by
  rw [sorted, sorted, filterMap_type?_mapAllTypes, filterMap_space?_mapAllTypes, change_mapTypes.map_toNode]
  simp [mapAllTypes_eq_map, Node.mapTypes]

mutual

theorem mapTypes_typesFirst (g : TypeDecl → TypeDecl) (node : Node) :
    node.typesFirst.mapTypes g = (node.mapTypes g).typesFirst := by
  match node with
  | .type t => rfl
  | .space name fullName options children =>
    rw [Node.typesFirst, Node.mapTypes, Node.mapTypes, Node.typesFirst, mapAllTypes_sorted,
      mapAllTypes_allTypesFirst g children]

theorem mapAllTypes_allTypesFirst (g : TypeDecl → TypeDecl) (nodes : List Node) :
    mapAllTypes g (allTypesFirst nodes) = allTypesFirst (mapAllTypes g nodes) := by
  match nodes with
  | [] => rfl
  | node :: rest =>
    rw [allTypesFirst, mapAllTypes, mapAllTypes, allTypesFirst, mapTypes_typesFirst g node,
      mapAllTypes_allTypesFirst g rest]

end

end Node

namespace Namespace

theorem spaces_typesFirst (ns : Namespace) :
    ns.typesFirst.spaces = ns.spaces.map Namespace.typesFirst := by
  unfold spaces
  rw [typesFirst, Node.filterMap_space?_sorted, Node.filterMap_space?_allTypesFirst]

theorem children_typesFirst (ns : Namespace) : ns.typesFirst.children =
    ns.types.map Node.type ++ (ns.spaces.map Namespace.typesFirst).map Namespace.toNode := by
  rw [typesFirst, Node.sorted, Node.filterMap_type?_allTypesFirst, Node.filterMap_space?_allTypesFirst]
  rfl

theorem children_typesFirst_perm (ns : Namespace) :
    ns.typesFirst.children.Perm (ns.children.map Node.typesFirst) := by
  rw [← Node.allTypesFirst_eq_map]
  exact Node.sorted_perm _

theorem names_typesFirst_perm (ns : Namespace) :
    (ns.typesFirst.children.map Node.name).Perm (ns.children.map Node.name) := by
  have h := (children_typesFirst_perm ns).map Node.name
  rwa [List.map_map, show Node.name ∘ Node.typesFirst = Node.name from funext Node.name_typesFirst] at h

/-- Among distinct names the order makes no difference to what is found. -/
theorem child?_typesFirst {ns : Namespace} (h : (ns.children.map Node.name).Nodup) (name : String) :
    ns.typesFirst.child? name = (ns.child? name).map Node.typesFirst := by
  have h' : (ns.typesFirst.children.map Node.name).Nodup := (names_typesFirst_perm ns).nodup_iff.2 h
  ext node'
  rw [child?_eq_some_iff h', (children_typesFirst_perm ns).mem_iff, List.mem_map, Option.map_eq_some_iff]
  constructor
  · rintro ⟨⟨node, hnode, rfl⟩, hname⟩
    exact ⟨node, (child?_eq_some_iff h).2 ⟨hnode, by simpa using hname⟩, rfl⟩
  · rintro ⟨node, hnode, rfl⟩
    obtain ⟨hmem, hname⟩ := (child?_eq_some_iff h).1 hnode
    exact ⟨⟨node, hmem, rfl⟩, by simpa using hname⟩

end Namespace

namespace Schema

variable {schema : Schema}

theorem types_typesFirst (schema : Schema) : schema.typesFirst.types = schema.types := by
  have hmap : schema.typesFirst.namespaces.map Namespace.toNode =
      Node.allTypesFirst (schema.namespaces.map Namespace.toNode) := by
    rw [Node.allTypesFirst_eq_map, typesFirst, List.map_map, List.map_map]
    rfl
  rw [types_eq_allTypesWithin, hmap, Node.allTypesWithin_allTypesFirst, types_eq_allTypesWithin]

theorem mapTypes_typesFirst (g : TypeDecl → TypeDecl) (schema : Schema) :
    schema.typesFirst.mapTypes g = (schema.mapTypes g).typesFirst := by
  simp [typesFirst, mapTypes, Namespace.typesFirst, Namespace.mapTypes, Node.mapAllTypes_sorted,
    Node.mapAllTypes_allTypesFirst]

theorem at_typesFirst_iff {path : List String} {ns' : Namespace} :
    schema.typesFirst.At path ns' ↔ ∃ ns, schema.At path ns ∧ ns.typesFirst = ns' := by
  constructor
  · intro h
    induction h with
    | top h =>
      obtain ⟨ns, hns, rfl⟩ := List.mem_map.1 h
      exact ⟨ns, .top hns, rfl⟩
    | child _ hc ih =>
      obtain ⟨ns, hat, rfl⟩ := ih
      rw [Namespace.spaces_typesFirst] at hc
      obtain ⟨child, hchild, rfl⟩ := List.mem_map.1 hc
      exact ⟨child, hat.child hchild, rfl⟩
  · rintro ⟨ns, h, rfl⟩
    induction h with
    | @top ns h =>
      have h' : ns.typesFirst ∈ schema.typesFirst.namespaces := List.mem_map_of_mem h
      exact .top h'
    | @child path ns child _ hc ih =>
      have hc' : child.typesFirst ∈ ns.typesFirst.spaces := by
        rw [Namespace.spaces_typesFirst]
        exact List.mem_map_of_mem hc
      exact ih.child hc'

theorem Consistent.typesFirst (h : schema.Consistent) : schema.typesFirst.Consistent := by
  have hspace : ∀ ns' ∈ schema.typesFirst.spaces, ∃ ns ∈ schema.spaces, ns.typesFirst = ns' := by
    intro ns' hns'
    obtain ⟨path, hat⟩ := mem_spaces_iff_at.1 hns'
    obtain ⟨ns, hns, rfl⟩ := at_typesFirst_iff.1 hat
    exact ⟨ns, hns.mem_spaces, rfl⟩
  refine ⟨?_, ?_, ?_, ?_⟩
  · have hnames : schema.typesFirst.namespaces.map Namespace.name =
        schema.namespaces.map Namespace.name := by
      simp [Schema.typesFirst, Namespace.typesFirst, Function.comp_def]
    rw [hnames]
    exact h.names_nodup
  · intro ns' hns'
    obtain ⟨ns, hns, rfl⟩ := List.mem_map.1 hns'
    exact h.top_fullName ns hns
  · intro ns' hns'
    obtain ⟨ns, hns, rfl⟩ := hspace ns' hns'
    exact (Namespace.names_typesFirst_perm ns).nodup_iff.2 (h.children_nodup ns hns)
  · intro ns' hns' child' hchild'
    obtain ⟨ns, hns, rfl⟩ := hspace ns' hns'
    rw [Namespace.spaces_typesFirst] at hchild'
    obtain ⟨child, hchild, rfl⟩ := List.mem_map.1 hchild'
    exact h.below_fullName ns hns child hchild

theorem space?_typesFirst (h : schema.Consistent) (fullName : String) :
    schema.typesFirst.space? fullName = (schema.space? fullName).map Namespace.typesFirst := by
  ext ns'
  rw [space?, spaceAt?_eq_some_iff h.typesFirst, at_typesFirst_iff, Option.map_eq_some_iff]
  simp only [space?, spaceAt?_eq_some_iff h]

theorem type?_typesFirst (h : schema.Consistent) (a : TypeAddress) :
    schema.typesFirst.type? a = schema.type? a := by
  unfold type?
  rw [space?_typesFirst h]
  cases hspace : schema.space? a.owner with
  | none => rfl
  | some ns =>
    have hnodup := h.children_nodup ns (mem_spaces_of_space? hspace)
    simp only [Option.map_some, Option.bind_some, Namespace.child?_typesFirst hnodup]
    cases ns.child? a.name <;> simp

end Schema

end SchemaClosure
