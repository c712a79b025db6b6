import SchemaClosure.Reach.Request

/-!
# Walking along references

Everything that is reachable from a request, depth first with a stack of what is still to be
looked at. A type whose fields have been followed is marked as visited and not followed again, so
cycles and shared references end. The walk stops at the first name that is missing in an existing
namespace and leaves what it has collected so far; a reference into a namespace that does not exist
is passed over.

The walk ends because a type is followed only when its address is not yet visited, and there are
only the addresses that the namespaces hold (`Schema.addresses`). The stack carries the proof that its
namespaces are namespaces of the schema (`Frame`).
-/

namespace SchemaClosure

mutual

/-- The namespace that a node is, and all namespaces below it. -/
def Node.spaces : Node → List Namespace
  | .type _ => []
  | .space name fullName options children =>
    ⟨name, fullName, options, children⟩ :: Node.allSpaces children

/-- All namespaces among some nodes and below them. -/
def Node.allSpaces : List Node → List Namespace
  | [] => []
  | node :: rest => node.spaces ++ Node.allSpaces rest

end

namespace Schema

/-- All namespaces of the schema. -/
def spaces (schema : Schema) : List Namespace :=
  Node.allSpaces (schema.namespaces.map Namespace.toNode)

/-- The addresses of everything that the namespaces of the schema hold. -/
def addresses (schema : Schema) : List TypeAddress :=
  schema.spaces.flatMap fun ns => ns.children.map fun child => ⟨ns.fullName, child.name⟩

end Schema

theorem Node.spaces_toNode (ns : Namespace) :
    ns.toNode.spaces = ns :: Node.allSpaces ns.children := by
  simp [Namespace.toNode, Node.spaces]

theorem Node.mem_allSpaces_iff {nodes : List Node} {ns : Namespace} :
    ns ∈ Node.allSpaces nodes ↔ ∃ node ∈ nodes, ns ∈ node.spaces := by
  induction nodes with
  | nil => simp [Node.allSpaces]
  | cons node rest ih => simp [Node.allSpaces, ih]

theorem Node.mem_allSpaces_of_mem {nodes : List Node} {ns : Namespace} (h : ns.toNode ∈ nodes) :
    ns ∈ Node.allSpaces nodes :=
  Node.mem_allSpaces_iff.2 ⟨_, h, by simp [Node.spaces_toNode]⟩

theorem Namespace.toNode_of_space? {node : Node} {ns : Namespace}
    (h : node.space? = some ns) : ns.toNode = node := by
  cases node <;> simp [Node.space?] at h
  subst h
  rfl

mutual

/-- The namespaces that a namespace in a node holds are in the node. -/
theorem Node.mem_spaces_trans {node : Node} {ns child : Namespace} (h : ns ∈ node.spaces)
    (hc : child ∈ Node.allSpaces ns.children) : child ∈ node.spaces := by
  match node with
  | .type _ => simp [Node.spaces] at h
  | .space name fullName options children =>
    simp only [Node.spaces, List.mem_cons] at h ⊢
    rcases h with rfl | h
    · exact .inr hc
    · exact .inr (Node.mem_allSpaces_trans h hc)

/-- The namespaces that a namespace among some nodes or below them holds are below them. -/
theorem Node.mem_allSpaces_trans {nodes : List Node} {ns child : Namespace}
    (h : ns ∈ Node.allSpaces nodes) (hc : child ∈ Node.allSpaces ns.children) :
    child ∈ Node.allSpaces nodes := by
  match nodes with
  | [] => simp [Node.allSpaces] at h
  | node :: rest =>
    simp only [Node.allSpaces, List.mem_append] at h ⊢
    rcases h with h | h
    · exact .inl (Node.mem_spaces_trans h hc)
    · exact .inr (Node.mem_allSpaces_trans h hc)

end

theorem Namespace.mem_allSpaces_of_descend? {nodes : List Node} {path : List String} :
    ∀ {ns target : Namespace}, ns ∈ Node.allSpaces nodes → ns.descend? path = some target →
      target ∈ Node.allSpaces nodes := by
  induction path with
  | nil => simp [Namespace.descend?]
  | cons name path ih =>
    intro ns target hns h
    simp only [Namespace.descend?, Option.bind_eq_some_iff] at h
    obtain ⟨child, ⟨node, hnode, hchild⟩, h⟩ := h
    refine ih (Node.mem_allSpaces_trans hns ?_) h
    refine Node.mem_allSpaces_of_mem ?_
    rw [Namespace.toNode_of_space? hchild]
    exact List.mem_of_find?_eq_some hnode

namespace Schema

theorem mem_spaces_of_top? {schema : Schema} {name : String} {ns : Namespace}
    (h : schema.top? name = some ns) : ns ∈ schema.spaces :=
  Node.mem_allSpaces_of_mem (List.mem_map_of_mem (List.mem_of_find?_eq_some h))

theorem mem_spaces_of_space? {schema : Schema} {fullName : String} {ns : Namespace}
    (h : schema.space? fullName = some ns) : ns ∈ schema.spaces := by
  simp only [space?, spaceAt?] at h
  cases hp : Text.pieces '.' fullName with
  | nil => simp [hp] at h
  | cons name path =>
    simp only [hp, Option.bind_eq_some_iff] at h
    obtain ⟨top, htop, h⟩ := h
    exact Namespace.mem_allSpaces_of_descend? (mem_spaces_of_top? htop) h

theorem mem_addresses_of_child? {schema : Schema} {ns : Namespace} {name : String} {node : Node}
    (hns : ns ∈ schema.spaces) (h : ns.child? name = some node) :
    ⟨ns.fullName, name⟩ ∈ schema.addresses := by
  have hname : node.name = name := by simpa using List.find?_some h
  simp only [addresses, List.mem_flatMap, List.mem_map]
  exact ⟨ns, hns, node, List.mem_of_find?_eq_some h, by rw [hname]⟩

end Schema

/-- A name that is missing in an existing namespace. -/
structure MissingType where
  owner : String
  name : String
  deriving DecidableEq, Repr

/-- The wording for a missing name. -/
def MissingType.message (m : MissingType) : String :=
  s!"Type '{m.name}' not found in namespace '{m.owner}'"

/-- What a walk has collected: the reachable names, the addresses of the types whose fields have been
followed, and the latter in the order in which this was done. -/
structure WalkState where
  reachable : ReachableNames
  visited : List TypeAddress
  expanded : List TypeAddress
  deriving DecidableEq, Repr

namespace WalkState

/-- Nothing collected yet. -/
def start : WalkState := ⟨[], [], []⟩

/-- A type marked as followed. -/
def expand (s : WalkState) (address : TypeAddress) : WalkState :=
  { s with visited := address :: s.visited, expanded := s.expanded ++ [address] }

end WalkState

/-- A name to be looked at in a namespace of the schema. -/
structure Frame (schema : Schema) where
  home : Namespace
  home_mem : home ∈ schema.spaces
  name : String

/-- The frame for an address, if its namespace exists. -/
def Frame.of? (schema : Schema) (address : TypeAddress) : Option (Frame schema) :=
  match h : schema.space? address.owner with
  | some ns => some ⟨ns, Schema.mem_spaces_of_space? h, address.name⟩
  | none => none

/-- The addresses that the fields of a type refer to, in order. -/
def TypeDecl.references (t : TypeDecl) : List TypeAddress :=
  t.fields.filterMap (·.resolved)

/-- The type whose fields are followed behind a node: only messages are. -/
def Node.message? : Node → Option TypeDecl
  | .type t => if t.kind = .message then some t else none
  | .space _ _ _ _ => none

/-- The number of addresses of the schema that have not been followed yet. -/
def Schema.unvisited (schema : Schema) (visited : List TypeAddress) : Nat :=
  (schema.addresses.filter (· ∉ visited)).length

theorem length_filter_unvisited_le (visited : List TypeAddress) (address : TypeAddress)
    (addresses : List TypeAddress) :
    (addresses.filter (· ∉ address :: visited)).length ≤ (addresses.filter (· ∉ visited)).length := by
  induction addresses with
  | nil => simp
  | cons k rest ih =>
    simp only [List.filter_cons]
    by_cases hk : k = address <;> by_cases hv : k ∈ visited <;> simp [hk, hv] at ih ⊢ <;> grind

theorem Schema.unvisited_cons_lt {schema : Schema} {visited : List TypeAddress} {address : TypeAddress}
    (hmem : address ∈ schema.addresses) (hnew : address ∉ visited) :
    schema.unvisited (address :: visited) < schema.unvisited visited := by
  unfold Schema.unvisited
  generalize schema.addresses = addresses at hmem
  induction addresses with
  | nil => simp at hmem
  | cons k rest ih =>
    by_cases hk : k = address
    · subst hk
      have := length_filter_unvisited_le visited k rest
      simp only [List.filter_cons, hnew, List.mem_cons_self]
      simpa using Nat.lt_succ_of_le this
    · have := ih ((List.mem_cons.1 hmem).resolve_left (Ne.symm hk))
      by_cases hv : k ∈ visited <;> simp [hk, hv] at this ⊢ <;> omega

/-- Looks at the frames of a stack from the top until it is empty or a name is missing. -/
def Schema.walk (schema : Schema) :
    List (Frame schema) → WalkState → WalkState × Option MissingType
  | [], s => (s, none)
  | frame :: stack, s =>
    let owner := frame.home.fullName
    match _found : frame.home.child? frame.name with
    | none => ({ s with reachable := s.reachable.touch owner }, some ⟨owner, frame.name⟩)
    | some node =>
      let s' := { s with reachable := s.reachable.insert owner frame.name }
      match node.message? with
      | none => schema.walk stack s'
      | some t =>
        if _seen : ⟨owner, frame.name⟩ ∈ s.visited then schema.walk stack s'
        else
          schema.walk (t.references.filterMap (Frame.of? schema) ++ stack)
            (s'.expand ⟨owner, frame.name⟩)
  termination_by stack s => (schema.unvisited s.visited, stack.length)
  decreasing_by
    · exact Prod.Lex.right _ (by simp)
    · exact Prod.Lex.right _ (by simp)
    · refine Prod.Lex.left _ _ (Schema.unvisited_cons_lt ?_ _seen)
      exact Schema.mem_addresses_of_child? frame.home_mem _found

/-- Collects what is reachable from a request on top of what is collected already. A request for a
namespace that is not there changes nothing. -/
def Schema.collect (schema : Schema) (request : Request) (s : WalkState) :
    WalkState × Option MissingType :=
  match h : schema.top? request.owner with
  | none => (s, none)
  | some ns =>
    schema.walk (request.typeNames.map fun name =>
      ⟨ns, Schema.mem_spaces_of_top? h, name⟩) s

/-- Collects for several requests one after the other, up to the first that misses a name. -/
def Schema.collectAll (schema : Schema) :
    List Request → WalkState → WalkState × Option MissingType
  | [], s => (s, none)
  | request :: rest, s =>
    match schema.collect request s with
    | (s, none) => schema.collectAll rest s
    | (s, some missing) => (s, some missing)

end SchemaClosure
