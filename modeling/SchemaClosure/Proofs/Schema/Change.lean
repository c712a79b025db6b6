import SchemaClosure.Proofs.Schema.Types

/-!
# Changing what stands in a schema

A change of nodes (`Node.Change`) goes through the children of every namespace one by one, takes types to types and
namespaces to namespaces. The namespaces and the types of a schema then are the changed ones in the same order
(`Change.allSpaces`, `Change.schema_types`), and when names stay, too, whatever is looked up is the changed form of what
was there before (`Change.schema_space?`, `Change.schema_type?`).
-/

namespace SchemaClosure

/-- `φ` changes types by `g` and namespaces by `f`, and `f` changes the children of a namespace by `φ`. -/
structure Node.Change (φ : Node → Node) (f : Namespace → Namespace) (g : TypeDecl → TypeDecl) : Prop where
  type : ∀ t, φ (.type t) = .type (g t)
  space : ∀ ns : Namespace, φ ns.toNode = (f ns).toNode
  children : ∀ ns : Namespace, (f ns).children = ns.children.map φ

namespace Node.Change

variable {φ : Node → Node} {f : Namespace → Namespace} {g : TypeDecl → TypeDecl}

/-! ## What a namespace holds -/

theorem type? (h : Change φ f g) (node : Node) : (φ node).type? = node.type?.map g := by
  cases node with
  | type t => rw [h.type, Node.type?, Node.type?, Option.map_some]
  | space name fullName options children =>
    have hspace := h.space ⟨name, fullName, options, children⟩
    rw [Namespace.toNode] at hspace
    rw [hspace]
    rfl

theorem space? (h : Change φ f g) (node : Node) : (φ node).space? = node.space?.map f := by
  cases node with
  | type t => rw [h.type, Node.space?, Node.space?, Option.map_none]
  | space name fullName options children =>
    have hspace := h.space ⟨name, fullName, options, children⟩
    rw [Namespace.toNode] at hspace
    rw [hspace]
    rfl

theorem filterMap_type? (h : Change φ f g) (nodes : List Node) :
    (nodes.map φ).filterMap Node.type? = (nodes.filterMap Node.type?).map g := by
  rw [List.filterMap_map, List.map_filterMap]
  exact congrArg nodes.filterMap (funext h.type?)

theorem filterMap_space? (h : Change φ f g) (nodes : List Node) :
    (nodes.map φ).filterMap Node.space? = (nodes.filterMap Node.space?).map f := by
  rw [List.filterMap_map, List.map_filterMap]
  exact congrArg nodes.filterMap (funext h.space?)

theorem types (h : Change φ f g) (ns : Namespace) : (f ns).types = ns.types.map g := by
  rw [Namespace.types, h.children, h.filterMap_type?, Namespace.types]

theorem spaces (h : Change φ f g) (ns : Namespace) : (f ns).spaces = ns.spaces.map f := by
  rw [Namespace.spaces, h.children, h.filterMap_space?, Namespace.spaces]

/-! ## All namespaces and types -/

mutual

theorem nodeSpaces (h : Change φ f g) (node : Node) : (φ node).spaces = node.spaces.map f := by
  match node with
  | .type t =>
    rw [h.type]
    rfl
  | .space name fullName options children =>
    have hspace := h.space ⟨name, fullName, options, children⟩
    rw [Namespace.toNode] at hspace
    rw [hspace, Node.spaces_toNode, h.children, h.allSpaces children, Node.spaces, List.map_cons]

theorem allSpaces (h : Change φ f g) (nodes : List Node) :
    Node.allSpaces (nodes.map φ) = (Node.allSpaces nodes).map f := by
  match nodes with
  | [] => rfl
  | node :: rest =>
    rw [List.map_cons, Node.allSpaces, Node.allSpaces, List.map_append, h.nodeSpaces node, h.allSpaces rest]

end

theorem map_toNode (h : Change φ f g) (namespaces : List Namespace) :
    (namespaces.map f).map Namespace.toNode = (namespaces.map Namespace.toNode).map φ := by
  rw [List.map_map, List.map_map]
  exact congrArg namespaces.map (funext fun ns => (h.space ns).symm)

theorem schema_spaces (h : Change φ f g) (schema : Schema) :
    (Schema.mk (schema.namespaces.map f)).spaces = schema.spaces.map f := by
  rw [Schema.spaces, h.map_toNode, h.allSpaces, Schema.spaces]

theorem schema_types (h : Change φ f g) (schema : Schema) :
    (Schema.mk (schema.namespaces.map f)).types = schema.types.map g := by
  rw [Schema.types_eq_flatMap, h.schema_spaces, List.flatMap_map, Schema.types_eq_flatMap, List.map_flatMap]
  exact congrArg schema.spaces.flatMap (funext h.types)

/-! ## Looking up -/

theorem space_name (h : Change φ f g) (hname : ∀ node, (φ node).name = node.name) (ns : Namespace) :
    (f ns).name = ns.name := by
  have hspace := congrArg Node.name (h.space ns)
  rw [hname] at hspace
  exact hspace.symm

theorem names_children (h : Change φ f g) (hname : ∀ node, (φ node).name = node.name) (ns : Namespace) :
    (f ns).children.map Node.name = ns.children.map Node.name := by
  rw [h.children, List.map_map]
  exact List.map_congr_left fun node _ => hname node

theorem child? (h : Change φ f g) (hname : ∀ node, (φ node).name = node.name) (ns : Namespace) (name : String) :
    (f ns).child? name = (ns.child? name).map φ := by
  have hkey : (fun node : Node => node.name == name) ∘ φ = (·.name == name) :=
    funext fun node => congrArg (· == name) (hname node)
  rw [Namespace.child?, h.children, List.find?_map, hkey, Namespace.child?]

theorem descend? (h : Change φ f g) (hname : ∀ node, (φ node).name = node.name) (path : List String) :
    ∀ ns : Namespace, (f ns).descend? path = (ns.descend? path).map f := by
  induction path with
  | nil =>
    intro ns
    rfl
  | cons name path ih =>
    intro ns
    simp only [Namespace.descend?, h.child? hname]
    cases hchild : ns.child? name with
    | none => rfl
    | some node => cases hspace : node.space? <;> simp [h.space?, hspace, ih]

theorem top? (h : Change φ f g) (hname : ∀ node, (φ node).name = node.name) (schema : Schema) (name : String) :
    (Schema.mk (schema.namespaces.map f)).top? name = (schema.top? name).map f := by
  have hkey : (fun ns : Namespace => ns.name == name) ∘ f = (·.name == name) :=
    funext fun ns => congrArg (· == name) (h.space_name hname ns)
  rw [Schema.top?, List.find?_map, hkey, Schema.top?]

theorem schema_space? (h : Change φ f g) (hname : ∀ node, (φ node).name = node.name) (schema : Schema)
    (fullName : String) : (Schema.mk (schema.namespaces.map f)).space? fullName = (schema.space? fullName).map f := by
  unfold Schema.space?
  cases Text.pieces '.' fullName with
  | nil => rfl
  | cons name path =>
    simp only [Schema.spaceAt?, h.top? hname]
    cases htop : schema.top? name with
    | none => rfl
    | some ns => exact h.descend? hname path ns

theorem schema_type? (h : Change φ f g) (hname : ∀ node, (φ node).name = node.name) (schema : Schema)
    (address : TypeAddress) :
    (Schema.mk (schema.namespaces.map f)).type? address = (schema.type? address).map g := by
  unfold Schema.type?
  rw [h.schema_space? hname]
  cases hspace : schema.space? address.owner with
  | none => rfl
  | some ns =>
    simp only [Option.map_some, Option.bind_some, h.child? hname]
    cases hchild : ns.child? address.name <;> simp [h.type?]

end Node.Change

end SchemaClosure
