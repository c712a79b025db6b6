import SchemaClosure.Document.Value
import SchemaClosure.Text.Pieces

/-!
# Schemas

Namespaces that hold types and further namespaces, in declaration order. A type is addressed by a
`TypeAddress`, the full name of its namespace with its own name; a namespace is addressed by its dotted
full name, which is taken apart at the dots when it is looked up.
-/

namespace SchemaClosure

/-- The address of a type: the full name of the namespace that owns it, and its name there. -/
structure TypeAddress where
  owner : String
  name : String
  deriving DecidableEq, Repr

def TypeAddress.text (address : TypeAddress) : String :=
  if address.owner.isEmpty then address.name else address.owner ++ "." ++ address.name

/-- A named member of a type. `typeName` is what was declared, `resolved` what it refers to. -/
structure Field where
  name : String
  typeName : String
  id : Option Int
  rule : Option String
  resolved : Option TypeAddress
  options : Mapping

inductive Kind where
  | message
  | enum
  deriving DecidableEq, Repr

/-- A type. Messages have fields and enums have values. -/
structure TypeDecl where
  name : String
  owner : String
  kind : Kind
  fields : List Field
  values : List (String × Int)
  options : Mapping

namespace TypeDecl

def address (t : TypeDecl) : TypeAddress := ⟨t.owner, t.name⟩

def fullName (t : TypeDecl) : String := t.address.text

end TypeDecl

/-- What a namespace holds under a name: a type, or a namespace with children of its own. -/
inductive Node where
  | type (definition : TypeDecl)
  | space (name fullName : String) (options : Mapping) (children : List Node)

structure Namespace where
  name : String
  fullName : String
  options : Mapping
  children : List Node

namespace Node

def name : Node → String
  | .type t => t.name
  | .space name _ _ _ => name

def space? : Node → Option Namespace
  | .type _ => none
  | .space name fullName options children => some ⟨name, fullName, options, children⟩

def type? : Node → Option TypeDecl
  | .type t => some t
  | .space _ _ _ _ => none

/-- The nodes with `child` put in: in place of the one of its name, else at the end. -/
def put (child : Node) : List Node → List Node
  | [] => [child]
  | node :: rest => if node.name = child.name then child :: rest else node :: put child rest

end Node

namespace Namespace

/-- The namespace as a child of another one. -/
def toNode (ns : Namespace) : Node :=
  .space ns.name ns.fullName ns.options ns.children

def empty (name fullName : String) : Namespace := ⟨name, fullName, [], []⟩

def child? (ns : Namespace) (name : String) : Option Node :=
  ns.children.find? (·.name == name)

def add (ns : Namespace) (child : Node) : Namespace :=
  { ns with children := Node.put child ns.children }

def types (ns : Namespace) : List TypeDecl :=
  ns.children.filterMap Node.type?

def spaces (ns : Namespace) : List Namespace :=
  ns.children.filterMap Node.space?

/-- The namespace below this one along a path of names. -/
def descend? : Namespace → List String → Option Namespace
  | ns, [] => some ns
  | ns, name :: path => ((ns.child? name).bind Node.space?).bind fun child => child.descend? path

/-- The namespaces with `new` put in: in place of the one of its name, else at the end. -/
def put (new : Namespace) : List Namespace → List Namespace
  | [] => [new]
  | ns :: rest => if ns.name = new.name then new :: rest else ns :: put new rest

end Namespace

structure Schema where
  namespaces : List Namespace

namespace Schema

def top? (schema : Schema) (name : String) : Option Namespace :=
  schema.namespaces.find? (·.name == name)

/-- The namespace along a path of names. -/
def spaceAt? (schema : Schema) : List String → Option Namespace
  | [] => none
  | name :: path => (schema.top? name).bind fun ns => ns.descend? path

def space? (schema : Schema) (fullName : String) : Option Namespace :=
  schema.spaceAt? (Text.pieces '.' fullName)

def type? (schema : Schema) (address : TypeAddress) : Option TypeDecl :=
  ((schema.space? address.owner).bind fun ns => ns.child? address.name).bind Node.type?

end Schema

/-! ## Adding a child -/

/-- The namespace with a child put in below it, along a path of names. -/
def Namespace.addAt? (child : Node) : Namespace → List String → Option Namespace
  | ns, [] => some (ns.add child)
  | ns, name :: path => do
    let inner ← (ns.child? name).bind Node.space?
    let inner ← inner.addAt? child path
    return ns.add inner.toNode

/-- The schema with a child put into the namespace of a dotted full name, if there is one. -/
def Schema.addAt? (schema : Schema) (fullName : String) (child : Node) : Option Schema :=
  match Text.pieces '.' fullName with
  | [] => none
  | name :: path => do
    let ns ← schema.top? name
    let ns ← ns.addAt? child path
    return ⟨Namespace.put ns schema.namespaces⟩

/-! ## Walking through all types -/

mutual

/-- The number of namespaces in a node. -/
def Node.weight : Node → Nat
  | .type _ => 0
  | .space _ _ _ children => Node.weightAll children + 1

/-- The number of namespaces in some nodes. -/
def Node.weightAll : List Node → Nat
  | [] => 0
  | node :: rest => node.weight + Node.weightAll rest

end

/-- The number of namespaces in a namespace, itself included. -/
def Namespace.weight (ns : Namespace) : Nat := Node.weightAll ns.children + 1

/-- The number of namespaces in some namespaces, themselves included. -/
def Namespace.weightAll : List Namespace → Nat
  | [] => 0
  | ns :: rest => ns.weight + weightAll rest

theorem Namespace.weightAll_append (spaces waiting : List Namespace) :
    weightAll (spaces ++ waiting) = weightAll spaces + weightAll waiting := by
  induction spaces with
  | nil => simp [weightAll]
  | cons ns rest ih => simp [weightAll, ih, Nat.add_assoc]

theorem Namespace.weightAll_spaces (ns : Namespace) :
    weightAll ns.spaces = Node.weightAll ns.children := by
  unfold Namespace.spaces
  induction ns.children with
  | nil => rfl
  | cons node rest ih =>
    cases node with
    | type t => simp [List.filterMap_cons, Node.space?, Node.weightAll, Node.weight, ih]
    | space name fullName options children =>
      simp [Node.space?, Node.weightAll, Node.weight, weightAll, Namespace.weight, ih]

/-- The types of the waiting namespaces and of all namespaces below them. The first one is taken:
its types come next, and the namespaces it holds wait before the others. -/
def Namespace.typesFrom : List Namespace → List TypeDecl
  | [] => []
  | ns :: waiting => ns.types ++ typesFrom (ns.spaces ++ waiting)
  termination_by waiting => weightAll waiting
  decreasing_by
    simp only [weightAll_append, weightAll_spaces, weightAll, Namespace.weight]
    omega

/-- All types, the types of a namespace before those of the namespaces that it holds. -/
def Schema.types (schema : Schema) : List TypeDecl :=
  Namespace.typesFrom schema.namespaces

end SchemaClosure
