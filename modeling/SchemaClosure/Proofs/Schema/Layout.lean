import Mathlib.Data.Set.List
import SchemaClosure.Proofs.Schema.Loading

/-!
# What stands at each path

A schema as a map from paths to what stands there: a namespace with its options, or a type
(`Schema.look?`). The order of children does not show in it, and nothing else is left out of a consistent
schema.

In this view a step of the loader is local. It makes some statements, each about one path, and what stands at
a path afterwards depends only on what stood there and on the statements about it (`Entity.settle`). Several
namespaces settle into one, and nothing else settles with anything. `Adds` says that a step does what its
statements say and fails only where they clash; `Adds.bind` puts two steps together and `Adds.graft` lets a
step below a name count as one from above.

In the same view a child that is added to a schema that is loaded already shows at its place and below, and nowhere
else (`Schema.look?_addAt?`).
-/

namespace SchemaClosure

/-- What stands at a path: a namespace with its options, or a type. -/
inductive Entity where
  | space (options : Mapping)
  | type (definition : TypeDecl)

/-- What stands at each path. -/
abbrev Layout := List String → Option Entity

namespace Entity

/-- The type that the entity is. -/
def type? : Entity → Option TypeDecl
  | .space _ => none
  | .type t => some t

/-- The options of the namespace that the entity is. -/
def options? : Entity → Option Mapping
  | .space options => some options
  | .type _ => none

theorem type?_eq_some_iff {e : Entity} {t : TypeDecl} : e.type? = some t ↔ e = .type t := by
  cases e <;> simp [type?]

theorem options?_eq_some_iff {e : Entity} {options : Mapping} :
    e.options? = some options ↔ e = .space options := by
  cases e <;> simp [options?]

/-- The entity with its type changed by `g`. -/
def mapType (g : TypeDecl → TypeDecl) : Entity → Entity
  | .space options => .space options
  | .type t => .type (g t)

/-! ## Declaring something at a path -/

/-- What stands at a path after something is declared there; none if the two clash. -/
def declare : Option Entity → Entity → Option Entity
  | none, .space options => some (.space (Mapping.update [] options))
  | none, .type t => some (.type t)
  | some (.space old), .space options => some (.space (old.update options))
  | some _, _ => none

/-- What stands at a path after several declarations there; none if they clash. -/
def settle (standing : Option Entity) (declared : List Entity) : Option (Option Entity) :=
  declared.foldlM (fun standing e => (declare standing e).map some) standing

theorem settle_nil (standing : Option Entity) : settle standing [] = some standing := rfl

theorem settle_append (standing : Option Entity) (a b : List Entity) :
    settle standing (a ++ b) = (settle standing a).bind fun between => settle between b :=
  List.foldlM_append

theorem settle_cons (standing : Option Entity) (e : Entity) (rest : List Entity) :
    settle standing (e :: rest) = (declare standing e).bind fun new => settle (some new) rest := by
  cases h : declare standing e <;> simp [settle, h]

/-- Nothing can be declared where a type stands. -/
theorem settle_type_eq_some_iff {t : TypeDecl} {declared : List Entity} {standing : Option Entity} :
    settle (some (.type t)) declared = some standing ↔ declared = [] ∧ standing = some (.type t) := by
  cases declared with
  | nil => simp [settle_nil, eq_comm]
  | cons e rest => cases e <;> simp [settle_cons, declare]

/-- Only namespaces can be declared where a namespace stands. -/
theorem settle_space_eq_some_iff {declared : List Entity} : ∀ {old : Mapping} {standing : Option Entity},
    settle (some (.space old)) declared = some standing ↔ ∃ all : List Mapping,
      declared = all.map .space ∧ standing = some (.space (all.foldl Mapping.update old)) := by
  induction declared with
  | nil =>
    intro old standing
    simp [settle_nil, eq_comm]
  | cons e rest ih =>
    intro old standing
    rw [settle_cons]
    cases e with
    | type t =>
      have hclash : declare (some (.space old)) (.type t) = none := rfl
      rw [hclash, Option.bind_none]
      constructor
      · intro h
        cases h
      · rintro ⟨all, hall, -⟩
        cases all <;> cases hall
    | space options =>
      rw [declare, Option.bind_some, ih]
      constructor
      · rintro ⟨all, rfl, rfl⟩
        exact ⟨options :: all, rfl, rfl⟩
      · rintro ⟨all, hall, rfl⟩
        cases all with
        | nil => cases hall
        | cons first others =>
          cases hall
          exact ⟨others, rfl, rfl⟩

/-- A namespace that is declared where there is none is merged into an empty one. -/
theorem settle_none_space_cons (options : Mapping) (rest : List Entity) :
    settle none (.space options :: rest) = settle (some (.space [])) (.space options :: rest) := rfl

theorem settle_none_type_cons (t : TypeDecl) (rest : List Entity) :
    settle none (.type t :: rest) = settle (some (.type t)) rest := rfl

/-- What is declared at a free path settles when it is nothing, one type, or namespaces only. -/
theorem settle_none_eq_some_iff {declared : List Entity} {standing : Option Entity} :
    settle none declared = some standing ↔ (declared = [] ∧ standing = none) ∨
      (∃ t, declared = [.type t] ∧ standing = some (.type t)) ∨
      ∃ all : List Mapping, all ≠ [] ∧ declared = all.map .space ∧
        standing = some (.space (all.foldl Mapping.update [])) := by
  cases declared with
  | nil => simp [settle_nil, eq_comm]
  | cons e rest =>
    cases e with
    | type t =>
      rw [settle_none_type_cons, settle_type_eq_some_iff]
      constructor
      · rintro ⟨rfl, rfl⟩
        exact .inr (.inl ⟨t, rfl, rfl⟩)
      · rintro (⟨h, -⟩ | ⟨u, h, rfl⟩ | ⟨all, -, h, -⟩)
        · cases h
        · cases h
          exact ⟨rfl, rfl⟩
        · cases all <;> cases h
    | space options =>
      rw [settle_none_space_cons, settle_space_eq_some_iff]
      constructor
      · rintro ⟨all, hall, rfl⟩
        refine .inr (.inr ⟨all, ?_, hall, rfl⟩)
        rintro rfl
        cases hall
      · rintro (⟨h, -⟩ | ⟨u, h, -⟩ | ⟨all, -, hall, rfl⟩)
        · cases h
        · cases h
        · exact ⟨all, hall, rfl⟩

/-- A type stands where it is declared, and nothing else is declared there. -/
theorem type_mem_iff_of_settle {declared : List Entity} {standing : Option Entity}
    (h : settle none declared = some standing) {t : TypeDecl} :
    .type t ∈ declared ↔ declared = [.type t] ∧ standing = some (.type t) := by
  rcases settle_none_eq_some_iff.1 h with ⟨rfl, rfl⟩ | ⟨u, rfl, rfl⟩ | ⟨all, -, rfl, rfl⟩
  · simp
  · simp [eq_comm]
  · simp

/-- A namespace stands where one is declared. -/
theorem space_mem_iff_of_settle {declared : List Entity} {standing : Option Entity}
    (h : settle none declared = some standing) :
    (∃ options, .space options ∈ declared) ↔ ∃ options, standing = some (.space options) := by
  rcases settle_none_eq_some_iff.1 h with ⟨rfl, rfl⟩ | ⟨u, rfl, rfl⟩ | ⟨all, hne, rfl, rfl⟩
  · simp
  · simp
  · simpa using List.exists_mem_of_ne_nil all hne

/-- The options of a namespace are those of all its declarations, put one after the other. -/
theorem options_of_settle {declared : List Entity} {options : Mapping}
    (h : settle none declared = some (some (.space options))) :
    options = Mapping.ofEntries (declared.filterMap options?).flatten := by
  rcases settle_none_eq_some_iff.1 h with ⟨-, hnone⟩ | ⟨t, -, htype⟩ | ⟨all, -, rfl, hspace⟩
  · cases hnone
  · cases htype
  · cases hspace
    have hall : (all.map space).filterMap options? = all := by
      rw [List.filterMap_map]
      exact List.filterMap_some
    rw [hall, Mapping.ofEntries, Mapping.update, List.foldl_flatten]
    rfl

/-- The order of declarations does not matter to whether they settle, nor to which type stands there. -/
theorem settle_perm {a b : List Entity} (hperm : a.Perm b) {standing : Option Entity}
    (h : settle none a = some standing) :
    ∃ other, settle none b = some other ∧ other.bind type? = standing.bind type? := by
  rcases settle_none_eq_some_iff.1 h with ⟨rfl, rfl⟩ | ⟨t, rfl, rfl⟩ | ⟨all, hne, rfl, rfl⟩
  · rw [List.nil_perm.1 hperm]
    exact ⟨none, rfl, rfl⟩
  · obtain rfl := List.singleton_perm.1 hperm
    exact ⟨some (.type t), rfl, rfl⟩
  · -- several declarations are all of namespaces, in whichever order
    have hspaces : b ∈ Set.range (List.map space) := by
      rw [Set.range_list_map]
      intro e he
      obtain ⟨options, -, rfl⟩ := List.mem_map.1 (hperm.mem_iff.2 he)
      exact ⟨options, rfl⟩
    obtain ⟨others, rfl⟩ := hspaces
    refine ⟨_, settle_none_eq_some_iff.2 (.inr (.inr ⟨others, ?_, rfl, rfl⟩)), rfl⟩
    rintro rfl
    exact hne (List.map_eq_nil_iff.1 hperm.eq_nil)

end Entity

/-! ## Statements -/

/-- What a document states at one place: that a namespace with options, or a type, stands at a path. The place
is the numbers of the entries that lead there. -/
structure Statement where
  place : List Nat
  path : List String
  entity : Entity

namespace Statement

/-- The statement as one that stands in an entry of a number and is about what is below a name. -/
def under (number : Nat) (name : String) (s : Statement) : Statement :=
  ⟨number :: s.place, name :: s.path, s.entity⟩

/-- What the statements say about a path. -/
def about (statements : List Statement) (path : List String) : List Entity :=
  (statements.filter (·.path = path)).map Statement.entity

@[simp] theorem about_append (a b : List Statement) (path : List String) :
    about (a ++ b) path = about a path ++ about b path := by
  simp [about]

theorem about_cons (s : Statement) (rest : List Statement) (path : List String) :
    about (s :: rest) path = (if s.path = path then [s.entity] else []) ++ about rest path := by
  by_cases h : s.path = path <;> simp [about, h]

theorem mem_about {statements : List Statement} {path : List String} {e : Entity} :
    e ∈ about statements path ↔ ∃ s ∈ statements, s.path = path ∧ s.entity = e := by
  simp [about, and_assoc]

/-- Where only one thing is said, one statement says it. -/
theorem eq_of_about_singleton {statements : List Statement} {path : List String} {e : Entity}
    (h : about statements path = [e]) {a b : Statement} (ha : a ∈ statements) (hb : b ∈ statements)
    (hapath : a.path = path) (hbpath : b.path = path) : a = b := by
  obtain ⟨s, hs, -⟩ := List.map_eq_singleton_iff.1 h
  have hmem : ∀ other ∈ statements, other.path = path → other = s := by
    intro other hother hpath
    have hfilter : other ∈ statements.filter (·.path = path) := List.mem_filter.2 ⟨hother, by simpa using hpath⟩
    rw [hs] at hfilter
    exact List.mem_singleton.1 hfilter
  exact (hmem a ha hapath).trans (hmem b hb hbpath).symm

/-- Statements below a name are not about the place above it. -/
@[simp] theorem about_under_nil (number : Nat) (name : String) (statements : List Statement) :
    about (statements.map (under number name)) [] = [] := by
  simp [about, under, List.filter_map, Function.comp_def]

theorem about_under_cons (number : Nat) (name first : String) (statements : List Statement)
    (path : List String) : about (statements.map (under number name)) (first :: path) =
      if name = first then about statements path else [] := by
  by_cases h : name = first <;> simp [about, under, List.filter_map, Function.comp_def, h]

end Statement

/-! ## Steps that add statements -/

open Entity Statement

/-- A step that starts where `before` stands adds statements: if it succeeds, they are settled at every path,
and if it fails, they clash at one. -/
structure Adds {α : Type} (view : α → Layout) (before : Layout) (statements : List Statement)
    (result : Except LoadError α) : Prop where
  settled : ∀ a, result = .ok a → ∀ path, settle (before path) (about statements path) = some (view a path)
  clash : ∀ e, result = .error e → ∃ path, settle (before path) (about statements path) = none

namespace Adds

variable {α β : Type} {view : α → Layout} {before : Layout} {statements : List Statement}

theorem of_ok {a : α} (h : ∀ path, settle (before path) (about statements path) = some (view a path)) :
    Adds view before statements (.ok a) :=
  ⟨fun _ ha => Except.ok.inj ha ▸ h, nofun⟩

theorem of_error {e : LoadError} (path : List String)
    (h : settle (before path) (about statements path) = none) : Adds view before statements (.error e) :=
  ⟨nofun, fun _ _ => ⟨path, h⟩⟩

/-- One step after another adds what both add. -/
theorem bind {x : Except LoadError α} (h : Adds view before statements x) {view' : β → Layout}
    {more : List Statement} {f : α → Except LoadError β}
    (hf : ∀ a, x = .ok a → Adds view' (view a) more (f a)) :
    Adds view' before (statements ++ more) (x >>= f) := by
  cases x with
  | error e =>
    obtain ⟨path, hpath⟩ := h.clash e rfl
    refine of_error path ?_
    rw [about_append, settle_append, hpath, Option.bind_none]
  | ok a =>
    have hnext := hf a rfl
    have hsplit : ∀ path, settle (before path) (about (statements ++ more) path) =
        settle (view a path) (about more path) := by
      intro path
      rw [about_append, settle_append, h.settled a rfl path, Option.bind_some]
    constructor
    · intro b hb path
      rw [hsplit]
      exact hnext.settled b hb path
    · intro e he
      obtain ⟨path, hpath⟩ := hnext.clash e he
      exact ⟨path, (hsplit path).trans hpath⟩

/-- What is added to an empty namespace is added to nothing, when a namespace is what is stated first. -/
theorem from_nothing {options : Mapping} {rest : List Statement} {place : List Nat}
    {result : Except LoadError α} {empty : Layout} (hself : empty [] = some (.space []))
    (hbelow : ∀ name path, empty (name :: path) = none)
    (h : Adds view empty (⟨place, [], .space options⟩ :: rest) result) :
    Adds view (fun _ => none) (⟨place, [], .space options⟩ :: rest) result := by
  have hsame : ∀ path, settle none (about (⟨place, [], .space options⟩ :: rest) path) =
      settle (empty path) (about (⟨place, [], .space options⟩ :: rest) path) := by
    intro path
    cases path with
    | nil =>
      rw [hself, about_cons, if_pos rfl, List.singleton_append, settle_none_space_cons]
    | cons name path => rw [hbelow]
  constructor
  · intro a ha path
    rw [hsame]
    exact h.settled a ha path
  · intro e he
    obtain ⟨path, hpath⟩ := h.clash e he
    exact ⟨path, (hsame path).trans hpath⟩

/-- A step below a name adds the same from above, when what it makes is put under the name. -/
theorem graft {x : Except LoadError α} {below : Layout} (h : Adds view below statements x) {name : String}
    (hbelow : ∀ path, before (name :: path) = below path) {view' : β → Layout} {f : α → Except LoadError β}
    (hf : ∀ a, x = .ok a → ∃ b, f a = .ok b ∧ (∀ path, view' b (name :: path) = view a path) ∧
      view' b [] = before [] ∧ ∀ other path, other ≠ name → view' b (other :: path) = before (other :: path))
    (number : Nat) :
    Adds view' before (statements.map (under number name)) (x >>= f) := by
  cases x with
  | error e =>
    obtain ⟨path, hpath⟩ := h.clash e rfl
    refine of_error (name :: path) ?_
    rw [about_under_cons, if_pos rfl, hbelow]
    exact hpath
  | ok a =>
    obtain ⟨b, hb, hname, hnil, hother⟩ := hf a rfl
    have hbind : Except.ok a >>= f = .ok b := hb
    rw [hbind]
    refine of_ok fun path => ?_
    match path with
    | [] => rw [about_under_nil, settle_nil, hnil]
    | first :: path =>
      rw [about_under_cons]
      by_cases hfirst : name = first
      · subst hfirst
        rw [if_pos rfl, hbelow, hname]
        exact h.settled a rfl path
      · rw [if_neg hfirst, settle_nil, hother first path (Ne.symm hfirst)]

end Adds

/-! ## The layout of a namespace and of a schema -/

/-- What stands at a path that starts at a node. -/
def Node.look? : Node → Layout
  | .type t, [] => some (.type t)
  | .type _, _ :: _ => none
  | .space _ _ options _, [] => some (.space options)
  | .space _ _ _ children, name :: path =>
    (children.find? (·.name == name)).bind fun child => child.look? path

/-- What stands at a path that starts at a namespace. -/
def Namespace.look? (ns : Namespace) : Layout := ns.toNode.look?

/-- What stands at a path of a schema. -/
def Schema.look? (schema : Schema) : Layout
  | [] => none
  | name :: path => (schema.top? name).bind fun ns => ns.look? path

theorem Node.find?_put (child : Node) (nodes : List Node) (name : String) :
    (put child nodes).find? (·.name == name) =
      if child.name = name then some child else nodes.find? (·.name == name) := by
  induction nodes with
  | nil => by_cases h : child.name = name <;> simp [put, h]
  | cons node rest ih =>
    by_cases hput : node.name = child.name
    · by_cases h : child.name = name <;> simp [put, hput, h]
    · rw [put, if_neg hput, List.find?_cons, List.find?_cons, ih]
      by_cases hnode : node.name = name
      · have hne : child.name ≠ name := fun h => hput (hnode.trans h.symm)
        simp [hnode, hne]
      · have hbeq : (node.name == name) = false := by simpa using hnode
        rw [hbeq]

theorem Node.look?_mapTypes {g : TypeDecl → TypeDecl} (hg : ∀ t, (g t).name = t.name) (path : List String) :
    ∀ node : Node, (node.mapTypes g).look? path = (node.look? path).map (Entity.mapType g) := by
  induction path with
  | nil =>
    intro node
    cases node <;> rfl
  | cons name path ih =>
    intro node
    cases node with
    | type t => rfl
    | space own fullName options children =>
      have hchild := Namespace.child?_mapTypes hg ⟨own, fullName, options, children⟩ name
      simp only [Namespace.child?, Namespace.mapTypes] at hchild
      simp only [Node.mapTypes, Node.look?, hchild]
      cases children.find? (·.name == name) with
      | none => rfl
      | some child => exact ih child

namespace Namespace

@[simp] theorem look?_cons (ns : Namespace) (name : String) (path : List String) :
    ns.look? (name :: path) = (ns.child? name).bind fun child => child.look? path := rfl

/-- Below a name that no type has stands what the namespace of that name holds. -/
theorem look?_cons_of_not_type {ns : Namespace} {name : String}
    (hnotType : ∀ t, ns.child? name ≠ some (.type t)) (path : List String) :
    ns.look? (name :: path) = ((ns.child? name).bind Node.space?).bind fun inner => inner.look? path := by
  rw [look?_cons]
  cases hchild : ns.child? name with
  | none => rfl
  | some node =>
    cases node with
    | type t => exact absurd hchild (hnotType t)
    | space _ _ _ _ => rfl

theorem child?_add (ns : Namespace) (child : Node) (name : String) :
    (ns.add child).child? name = if child.name = name then some child else ns.child? name :=
  Node.find?_put child ns.children name

/-- What is added stands under its name, and the rest stays. -/
theorem look?_add (ns : Namespace) (child : Node) :
    (∀ path, (ns.add child).look? (child.name :: path) = child.look? path) ∧
    (ns.add child).look? [] = ns.look? [] ∧
    ∀ other path, other ≠ child.name → (ns.add child).look? (other :: path) = ns.look? (other :: path) := by
  refine ⟨fun path => ?_, rfl, fun other path hne => ?_⟩
  · rw [look?_cons, child?_add, if_pos rfl, Option.bind_some]
  · rw [look?_cons, child?_add, if_neg (Ne.symm hne), look?_cons]

theorem options?_look? (path : List String) : ∀ ns : Namespace,
    (ns.look? path).bind Entity.options? = (ns.descend? path).map Namespace.options := by
  induction path with
  | nil =>
    intro ns
    rfl
  | cons name path ih =>
    intro ns
    rw [look?_cons, descend?]
    cases ns.child? name with
    | none => rfl
    | some node =>
      cases node with
      | type t => cases path <;> rfl
      | space name fullName options children => exact ih ⟨name, fullName, options, children⟩

theorem type?_look?_concat (path : List String) (name : String) : ∀ ns : Namespace,
    (ns.look? (path ++ [name])).bind Entity.type? =
      (ns.descend? path).bind fun inner => (inner.child? name).bind Node.type? := by
  induction path with
  | nil =>
    intro ns
    rw [List.nil_append, look?_cons, descend?, Option.bind_some]
    cases ns.child? name with
    | none => rfl
    | some node => cases node <;> rfl
  | cons first path ih =>
    intro ns
    rw [List.cons_append, look?_cons, descend?]
    cases ns.child? first with
    | none => rfl
    | some node =>
      cases node with
      | type t => cases path <;> rfl
      | space name fullName options children => exact ih ⟨name, fullName, options, children⟩

end Namespace

/-- What is added to a namespace that is continued, or to an empty one where none is, is added below its name,
when the namespace itself is stated first. -/
theorem Adds.graft_onto {β : Type} {continued? : Option Namespace} {name fullName : String}
    {options : Mapping} {rest : List Statement} {x : Except LoadError Namespace}
    (h : Adds Namespace.look? (continued?.getD (Namespace.empty name fullName)).look?
      (⟨[], [], .space options⟩ :: rest) x)
    {before : Layout} (hbelow : ∀ path, before (name :: path) = continued?.bind fun ns => ns.look? path)
    {view' : β → Layout} {f : Namespace → Except LoadError β}
    (hf : ∀ new, x = .ok new → ∃ b, f new = .ok b ∧ (∀ path, view' b (name :: path) = new.look? path) ∧
      view' b [] = before [] ∧ ∀ other path, other ≠ name → view' b (other :: path) = before (other :: path))
    (number : Nat) :
    Adds view' before ((⟨[], [], .space options⟩ :: rest).map (under number name)) (x >>= f) := by
  cases continued? with
  | none => exact (h.from_nothing rfl fun _ _ => rfl).graft hbelow hf number
  | some ns => exact h.graft hbelow hf number

namespace Schema

variable {schema : Schema}

theorem top?_put (new : Namespace) (schema : Schema) (name : String) :
    (Schema.mk (Namespace.put new schema.namespaces)).top? name =
      if new.name = name then some new else schema.top? name := by
  have hnode : ∀ namespaces : List Namespace,
      (namespaces.map Namespace.toNode).find? (·.name == name) =
        (namespaces.find? (·.name == name)).map Namespace.toNode := by
    intro namespaces
    rw [List.find?_map]
    rfl
  have h := Node.find?_put new.toNode (schema.namespaces.map Namespace.toNode) name
  rw [← Namespace.map_toNode_put, hnode, hnode] at h
  refine Option.map_injective (fun a b => Namespace.toNode_inj) (h.trans ?_)
  by_cases hname : new.name = name <;> simp [hname, top?]

/-- What is put in stands under its name, and the rest stays. -/
theorem look?_put (schema : Schema) (new : Namespace) :
    (∀ path, (Schema.mk (Namespace.put new schema.namespaces)).look? (new.name :: path) = new.look? path) ∧
    (Schema.mk (Namespace.put new schema.namespaces)).look? [] = schema.look? [] ∧
    ∀ other path, other ≠ new.name →
      (Schema.mk (Namespace.put new schema.namespaces)).look? (other :: path) = schema.look? (other :: path) := by
  refine ⟨fun path => ?_, rfl, fun other path hne => ?_⟩
  · rw [look?, top?_put, if_pos rfl, Option.bind_some]
  · rw [look?, top?_put, if_neg (Ne.symm hne), look?]

/-- Where types are changed, the layout changes in the same way. -/
theorem look?_mapTypes {g : TypeDecl → TypeDecl} (hg : ∀ t, (g t).name = t.name) (schema : Schema)
    (path : List String) :
    (schema.mapTypes g).look? path = (schema.look? path).map (Entity.mapType g) := by
  cases path with
  | nil => rfl
  | cons name path =>
    rw [look?, look?, top?_mapTypes]
    cases schema.top? name with
    | none => rfl
    | some ns => exact Node.look?_mapTypes hg path ns.toNode

theorem options?_look? (schema : Schema) (path : List String) :
    (schema.look? path).bind Entity.options? = (schema.spaceAt? path).map Namespace.options := by
  cases path with
  | nil => rfl
  | cons name path =>
    rw [look?, spaceAt?]
    cases schema.top? name with
    | none => rfl
    | some ns => exact Namespace.options?_look? path ns

theorem type?_look?_concat (schema : Schema) (path : List String) (name : String) :
    (schema.look? (path ++ [name])).bind Entity.type? =
      (schema.spaceAt? path).bind fun ns => (ns.child? name).bind Node.type? := by
  cases path with
  | nil =>
    rw [List.nil_append, look?]
    cases schema.top? name <;> rfl
  | cons first path =>
    rw [List.cons_append, look?, spaceAt?]
    cases schema.top? first with
    | none => rfl
    | some ns => exact Namespace.type?_look?_concat path name ns

/-- The type at an address, from the layout. -/
theorem type?_eq_look? (schema : Schema) (a : TypeAddress) :
    schema.type? a = (schema.look? (Text.pieces '.' a.owner ++ [a.name])).bind Entity.type? := by
  rw [type?_look?_concat, type?, Option.bind_assoc]
  rfl

/-- The layout shows which namespaces stand where. -/
theorem look?_eq_space_iff (hcons : schema.Consistent) {path : List String} {options : Mapping} :
    schema.look? path = some (.space options) ↔ ∃ ns, schema.At path ns ∧ ns.options = options := by
  have h : schema.look? path = some (.space options) ↔
      (schema.look? path).bind Entity.options? = some options := by
    simp [Option.bind_eq_some_iff, Entity.options?_eq_some_iff]
  simp only [h, options?_look?, Option.map_eq_some_iff, spaceAt?_eq_some_iff hcons]

/-- The layout shows which types stand where. -/
theorem look?_concat_eq_type_iff (hcons : schema.Consistent) {path : List String} {name : String}
    {t : TypeDecl} : schema.look? (path ++ [name]) = some (.type t) ↔
      ∃ ns, schema.At path ns ∧ t ∈ ns.types ∧ t.name = name := by
  have h : schema.look? (path ++ [name]) = some (.type t) ↔
      (schema.look? (path ++ [name])).bind Entity.type? = some t := by
    simp [Option.bind_eq_some_iff, Entity.type?_eq_some_iff]
  simp only [h, type?_look?_concat, Option.bind_eq_some_iff, spaceAt?_eq_some_iff hcons,
    Node.type?_eq_some_iff, exists_eq_right]
  refine exists_congr fun ns => and_congr_right fun hat => ?_
  rw [Namespace.child?_eq_some_iff (hcons.children_nodup ns hat.mem_spaces), Namespace.mem_types]
  rfl

theorem exists_at_iff_look? (hcons : schema.Consistent) {path : List String} :
    (∃ ns, schema.At path ns) ↔ ∃ options, schema.look? path = some (.space options) := by
  simp only [look?_eq_space_iff hcons]
  constructor
  · rintro ⟨ns, hat⟩
    exact ⟨_, ns, hat, rfl⟩
  · rintro ⟨-, ns, hat, -⟩
    exact ⟨ns, hat⟩

/-! ## The layout with references -/

theorem look?_resolveAll (schema : Schema) (path : List String) :
    schema.resolveAll.look? path = (schema.look? path).map (Entity.mapType schema.resolveType) := by
  rw [resolveAll_eq_mapTypes]
  exact look?_mapTypes (g := schema.resolveType) (fun _ => rfl) schema path

theorem look?_resolveAll_eq_space_iff {path : List String} {options : Mapping} :
    schema.resolveAll.look? path = some (.space options) ↔ schema.look? path = some (.space options) := by
  rw [look?_resolveAll]
  rcases schema.look? path with - | - | - <;> simp [Entity.mapType]

theorem look?_resolveAll_eq_type_iff {path : List String} {t : TypeDecl} :
    schema.resolveAll.look? path = some (.type t) ↔
      ∃ bare, schema.look? path = some (.type bare) ∧ schema.resolveType bare = t := by
  rw [look?_resolveAll]
  rcases schema.look? path with - | - | - <;> simp [Entity.mapType]

end Schema

/-! ## Adding a child -/

namespace Namespace

variable {child : Node} {ns ns' : Namespace}

theorem addAt?_cons (child : Node) (ns : Namespace) (name : String) (path : List String) :
    ns.addAt? child (name :: path) = ((ns.child? name).bind Node.space?).bind fun inner =>
      (inner.addAt? child path).map fun inner => ns.add inner.toNode := by
  rw [addAt?]
  cases (ns.child? name).bind Node.space? with
  | none => rfl
  | some inner => cases h : inner.addAt? child path <;> simp [h]

/-- A child that is a namespace has the name that it is found by. -/
theorem name_of_child? {inner : Namespace} {name : String} (h : (ns.child? name).bind Node.space? = some inner) :
    ns.child? name = some inner.toNode ∧ inner.name = name := by
  obtain ⟨node, hnode, hspace⟩ := Option.bind_eq_some_iff.1 h
  cases node with
  | type t => cases hspace
  | space inside fullName options children =>
    cases hspace
    exact ⟨hnode, by simpa [Node.name] using List.find?_some hnode⟩

theorem name_addAt? {path : List String} (h : ns.addAt? child path = some ns') : ns'.name = ns.name := by
  cases path with
  | nil =>
    cases h
    rfl
  | cons name path =>
    rw [addAt?_cons, Option.bind_eq_some_iff] at h
    obtain ⟨inner, -, h⟩ := h
    obtain ⟨inner', -, rfl⟩ := Option.map_eq_some_iff.1 h
    rfl

/-- A child can be added where there is a namespace. -/
theorem isSome_addAt? (child : Node) (ns : Namespace) (path : List String) :
    (ns.addAt? child path).isSome = (ns.descend? path).isSome := by
  induction path generalizing ns with
  | nil => rfl
  | cons name path ih =>
    rw [addAt?_cons, descend?]
    cases (ns.child? name).bind Node.space? with
    | none => rfl
    | some inner => rw [Option.bind_some, Option.isSome_map, ih, Option.bind_some]

/-- **Adding a child** changes what stands at its place and below, and nothing else. -/
theorem look?_addAt? {path : List String} (h : ns.addAt? child path = some ns') :
    (∀ rest, ns'.look? (path ++ child.name :: rest) = child.look? rest) ∧
    ∀ place, ¬ path ++ [child.name] <+: place → ns'.look? place = ns.look? place := by
  induction path generalizing ns ns' with
  | nil =>
    cases h
    obtain ⟨hthere, hnil, helse⟩ := look?_add ns child
    refine ⟨hthere, fun place hplace => ?_⟩
    cases place with
    | nil => exact hnil
    | cons first place => exact helse first place fun hfirst => hplace ⟨place, hfirst ▸ rfl⟩
  | cons name path ih =>
    rw [addAt?_cons, Option.bind_eq_some_iff] at h
    obtain ⟨inner, hinner, h⟩ := h
    obtain ⟨hchild, hname⟩ := name_of_child? hinner
    obtain ⟨inner', hadded, rfl⟩ := Option.map_eq_some_iff.1 h
    obtain ⟨hthere, helse⟩ := ih hadded
    obtain ⟨hinside, hnil, hbeside⟩ := look?_add ns inner'.toNode
    obtain rfl : inner'.toNode.name = name := (name_addAt? hadded).trans hname
    refine ⟨fun rest => (hinside _).trans (hthere rest), fun place hplace => ?_⟩
    cases place with
    | nil => exact hnil
    | cons first place =>
      by_cases hfirst : first = inner'.toNode.name
      · rw [hfirst, List.cons_append, List.cons_prefix_cons] at hplace
        rw [hfirst, hinside, look?_cons, hchild]
        exact helse place fun hprefix => hplace ⟨rfl, hprefix⟩
      · exact hbeside first place hfirst

end Namespace

namespace Schema

variable {schema schema' : Schema} {fullName : String} {child : Node}

/-- A child can be added to the namespaces of the schema. -/
theorem isSome_addAt? (schema : Schema) (fullName : String) (child : Node) :
    (schema.addAt? fullName child).isSome = (schema.space? fullName).isSome := by
  rw [addAt?, space?]
  cases Text.pieces '.' fullName with
  | nil => rfl
  | cons name path =>
    rw [spaceAt?]
    cases htop : schema.top? name with
    | none => simp [htop]
    | some ns =>
      rw [Option.bind_some, ← Namespace.isSome_addAt? child]
      cases hadded : ns.addAt? child path <;> simp [htop, hadded]

/-- **Adding a child** to the namespace of a full name changes what stands at its place and below, and nothing else. -/
theorem look?_addAt? (h : schema.addAt? fullName child = some schema') :
    (∀ rest, schema'.look? (Text.pieces '.' fullName ++ child.name :: rest) = child.look? rest) ∧
    ∀ place, ¬ Text.pieces '.' fullName ++ [child.name] <+: place → schema'.look? place = schema.look? place := by
  rw [addAt?.eq_def] at h
  split at h
  · cases h
  · rename_i name path heq
    simp only [bind, Option.bind_eq_some_iff, pure, Option.some.injEq] at h
    obtain ⟨ns, hns, ns', hadded, rfl⟩ := h
    have hname : ns'.name = name := by
      have hfound := List.find?_some hns
      rw [Namespace.name_addAt? hadded]
      simpa using hfound
    obtain ⟨hthere, helse⟩ := Namespace.look?_addAt? hadded
    obtain ⟨hinside, hnil, hbeside⟩ := look?_put schema ns'
    subst hname
    rw [heq]
    refine ⟨fun rest => (hinside _).trans (hthere rest), fun place hplace => ?_⟩
    cases place with
    | nil => exact hnil
    | cons first place =>
      by_cases hfirst : first = ns'.name
      · rw [hfirst, List.cons_append, List.cons_prefix_cons] at hplace
        rw [hfirst, hinside, look?, hns]
        exact helse place fun hprefix => hplace ⟨rfl, hprefix⟩
      · exact hbeside first place hfirst

end Schema

end SchemaClosure
