import SchemaClosure.Proofs.Schema.Change
import SchemaClosure.Schema.Resolution

/-!
# Changing types where they stand

`Schema.mapTypes` changes every type and leaves the tree as it is. When names stay, whatever is looked up
is the changed form of what was there before (`type?_mapTypes`), and the order of the types is the same
(`types_mapTypes`). Resolving all references is such a change (`resolveAll_eq_mapTypes`).
-/

namespace SchemaClosure

mutual

/-- A node with its types changed by `g`. -/
def Node.mapTypes (g : TypeDecl → TypeDecl) : Node → Node
  | .type t => .type (g t)
  | .space name fullName options children =>
    .space name fullName options (Node.mapAllTypes g children)

/-- Some nodes with their types changed by `g`. -/
def Node.mapAllTypes (g : TypeDecl → TypeDecl) : List Node → List Node
  | [] => []
  | node :: rest => node.mapTypes g :: Node.mapAllTypes g rest

end

/-- A namespace with its types changed by `g`. -/
def Namespace.mapTypes (g : TypeDecl → TypeDecl) (ns : Namespace) : Namespace :=
  { ns with children := Node.mapAllTypes g ns.children }

/-- A schema with its types changed by `g`. -/
def Schema.mapTypes (g : TypeDecl → TypeDecl) (schema : Schema) : Schema :=
  ⟨schema.namespaces.map (Namespace.mapTypes g)⟩

namespace Node

variable {g : TypeDecl → TypeDecl}

theorem mapAllTypes_eq_map (nodes : List Node) : mapAllTypes g nodes = nodes.map (Node.mapTypes g) := by
  induction nodes with
  | nil => rfl
  | cons node rest ih => rw [mapAllTypes, ih, List.map_cons]

@[simp] theorem name_mapTypes (hg : ∀ t, (g t).name = t.name) (node : Node) :
    (node.mapTypes g).name = node.name := by
  cases node with
  | type t => exact hg t
  | space name fullName options children => rfl

/-- Changing types is a change of the nodes that leaves namespaces in their places. -/
theorem change_mapTypes : Change (Node.mapTypes g) (Namespace.mapTypes g) g where
  type _ := rfl
  space _ := rfl
  children ns := mapAllTypes_eq_map ns.children

theorem filterMap_type?_mapAllTypes (nodes : List Node) :
    (mapAllTypes g nodes).filterMap Node.type? = (nodes.filterMap Node.type?).map g := by
  rw [mapAllTypes_eq_map, change_mapTypes.filterMap_type?]

theorem filterMap_space?_mapAllTypes (nodes : List Node) :
    (mapAllTypes g nodes).filterMap Node.space? =
      (nodes.filterMap Node.space?).map (Namespace.mapTypes g) := by
  rw [mapAllTypes_eq_map, change_mapTypes.filterMap_space?]

mutual

theorem mapTypes_mapTypes (g' : TypeDecl → TypeDecl) (node : Node) :
    (node.mapTypes g).mapTypes g' = node.mapTypes fun t => g' (g t) := by
  match node with
  | .type t => rfl
  | .space name fullName options children =>
    rw [Node.mapTypes, Node.mapTypes, Node.mapTypes, mapAllTypes_mapAllTypes g' children]

theorem mapAllTypes_mapAllTypes (g' : TypeDecl → TypeDecl) (nodes : List Node) :
    mapAllTypes g' (mapAllTypes g nodes) = mapAllTypes (fun t => g' (g t)) nodes := by
  match nodes with
  | [] => rfl
  | node :: rest =>
    rw [mapAllTypes, mapAllTypes, mapAllTypes, mapTypes_mapTypes g' node, mapAllTypes_mapAllTypes g' rest]

end

mutual

/-- Changes that agree on the types of a node are the same for the node. -/
theorem mapTypes_congr {g' : TypeDecl → TypeDecl} (node : Node) (hself : ∀ t, node = .type t → g t = g' t)
    (h : ∀ t ∈ node.typesWithin, g t = g' t) : node.mapTypes g = node.mapTypes g' := by
  match node with
  | .type t => exact congrArg Node.type (hself t rfl)
  | .space name fullName options children =>
    have ih : mapAllTypes g children = mapAllTypes g' children := by
      apply mapAllTypes_congr children
      · exact fun t ht => h t (List.mem_append_left _ (List.mem_filterMap.2 ⟨_, ht, rfl⟩))
      · exact fun t ht => h t (List.mem_append_right _ ht)
    rw [Node.mapTypes, Node.mapTypes, ih]

theorem mapAllTypes_congr {g' : TypeDecl → TypeDecl} (nodes : List Node) (hself : ∀ t, .type t ∈ nodes → g t = g' t)
    (h : ∀ t ∈ allTypesWithin nodes, g t = g' t) : mapAllTypes g nodes = mapAllTypes g' nodes := by
  match nodes with
  | [] => rfl
  | node :: rest =>
    have hnode : node.mapTypes g = node.mapTypes g' := by
      apply mapTypes_congr node
      · exact fun t ht => hself t (ht ▸ List.mem_cons_self)
      · exact fun t ht => h t (List.mem_append_left _ ht)
    have hrest : mapAllTypes g rest = mapAllTypes g' rest := by
      apply mapAllTypes_congr rest
      · exact fun t ht => hself t (List.mem_cons_of_mem _ ht)
      · exact fun t ht => h t (List.mem_append_right _ ht)
    rw [mapAllTypes, mapAllTypes, hnode, hrest]

end

mutual

theorem mapTypes_id (node : Node) : node.mapTypes id = node := by
  match node with
  | .type t => rfl
  | .space name fullName options children => rw [Node.mapTypes, mapAllTypes_id children]

theorem mapAllTypes_id (nodes : List Node) : mapAllTypes id nodes = nodes := by
  match nodes with
  | [] => rfl
  | node :: rest => rw [mapAllTypes, mapTypes_id node, mapAllTypes_id rest]

end

end Node

namespace Namespace

variable {g : TypeDecl → TypeDecl}

theorem types_mapTypes (ns : Namespace) : (ns.mapTypes g).types = ns.types.map g :=
  Node.change_mapTypes.types ns

theorem spaces_mapTypes (ns : Namespace) : (ns.mapTypes g).spaces = ns.spaces.map (Namespace.mapTypes g) :=
  Node.change_mapTypes.spaces ns

theorem child?_mapTypes (hg : ∀ t, (g t).name = t.name) (ns : Namespace) (name : String) :
    (ns.mapTypes g).child? name = (ns.child? name).map (Node.mapTypes g) :=
  Node.change_mapTypes.child? (Node.name_mapTypes hg) ns name

end Namespace

namespace Schema

variable {g : TypeDecl → TypeDecl}

theorem types_mapTypes (schema : Schema) : (schema.mapTypes g).types = schema.types.map g :=
  Node.change_mapTypes.schema_types schema

theorem top?_mapTypes (schema : Schema) (name : String) :
    (schema.mapTypes g).top? name = (schema.top? name).map (Namespace.mapTypes g) := by
  simp only [top?, mapTypes, List.find?_map]
  rfl

theorem type?_mapTypes (hg : ∀ t, (g t).name = t.name) (schema : Schema) (address : TypeAddress) :
    (schema.mapTypes g).type? address = (schema.type? address).map g :=
  Node.change_mapTypes.schema_type? (Node.name_mapTypes hg) schema address

theorem mapTypes_mapTypes (g' : TypeDecl → TypeDecl) (schema : Schema) :
    (schema.mapTypes g).mapTypes g' = schema.mapTypes fun t => g' (g t) := by
  simp [mapTypes, Namespace.mapTypes, Node.mapAllTypes_mapAllTypes]

/-- Changes that agree on the types of a schema are the same for the schema. -/
theorem mapTypes_congr {g' : TypeDecl → TypeDecl} {schema : Schema} (h : ∀ t ∈ schema.types, g t = g' t) :
    schema.mapTypes g = schema.mapTypes g' := by
  have hmap : schema.namespaces.map (Namespace.mapTypes g) = schema.namespaces.map (Namespace.mapTypes g') := by
    refine List.map_congr_left fun ns hns => ?_
    have hmem := mem_spaces_of_mem_namespaces hns
    have hchildren : Node.mapAllTypes g ns.children = Node.mapAllTypes g' ns.children := by
      refine Node.mapAllTypes_congr _ (fun t ht => ?_) fun t ht => ?_
      · exact h t (mem_types.2 ⟨ns, hmem, Namespace.mem_types.2 ht⟩)
      · obtain ⟨inner, hinner, ht⟩ := Node.mem_allTypesWithin.1 ht
        exact h t (mem_types.2 ⟨inner, Node.mem_allSpaces_trans hmem hinner, ht⟩)
    rw [Namespace.mapTypes, Namespace.mapTypes, hchildren]
  rw [mapTypes, mapTypes, hmap]

theorem mapTypes_id (schema : Schema) : schema.mapTypes id = schema := by
  have hspace : Namespace.mapTypes id = id := funext fun ns => by rw [Namespace.mapTypes, Node.mapAllTypes_id, id]
  rw [mapTypes, hspace, List.map_id]

theorem mapTypes_eq_self {schema : Schema} (h : ∀ t ∈ schema.types, g t = t) : schema.mapTypes g = schema :=
  (mapTypes_congr h).trans schema.mapTypes_id

/-! ## Resolving as a change of types -/

/-- A type with its references resolved. -/
def resolveType (schema : Schema) (t : TypeDecl) : TypeDecl :=
  { t with fields := t.fields.map (schema.resolveField t.owner) }

end Schema

mutual

theorem Node.resolve_eq_mapTypes (schema : Schema) (node : Node) :
    node.resolve schema = node.mapTypes schema.resolveType := by
  match node with
  | .type t => rfl
  | .space name fullName options children =>
    rw [Node.resolve, Node.mapTypes, Node.resolveAll_eq_mapAllTypes schema children]

theorem Node.resolveAll_eq_mapAllTypes (schema : Schema) (nodes : List Node) :
    Node.resolveAll schema nodes = Node.mapAllTypes schema.resolveType nodes := by
  match nodes with
  | [] => rfl
  | node :: rest =>
    rw [Node.resolveAll, Node.mapAllTypes, Node.resolve_eq_mapTypes schema node,
      Node.resolveAll_eq_mapAllTypes schema rest]

end

theorem Schema.resolveAll_eq_mapTypes (schema : Schema) :
    schema.resolveAll = schema.mapTypes schema.resolveType := by
  simp [Schema.resolveAll, Schema.mapTypes, Namespace.mapTypes, Node.resolveAll_eq_mapAllTypes]

end SchemaClosure
