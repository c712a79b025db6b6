import Mathlib.Logic.Relation
import SchemaClosure.Proofs.Schema.Declared
import SchemaClosure.Proofs.Schema.Reload

/-!
# The order of the types

`Schema.types` takes one namespace after the other from those that wait. Three other ways through a schema yield
the same types in the same order: a loop with a stack onto which the namespaces that a namespace holds are pushed
in reverse (`Iteration.runs_start_iff`), the recursion that lists the types of a namespace before those of the
namespaces in it, with the names that lead to each (`Schema.placedTypes`), and reading the document of the
schema (`Value.typesRead_toValue`).

Main theorem `Schema.types_order`: all of them agree, and when the names in one place are distinct, every type
that stands at some path is listed exactly once.
-/

namespace SchemaClosure

/-! ## A loop with a stack -/

/-- A loop over the types: the namespaces that are still to be taken, the next one at the end, and the types
yielded so far. -/
structure Iteration where
  stack : List Namespace
  yielded : List TypeDecl

namespace Iteration

/-- The loop before its first step, with the first namespace on top of the stack. -/
def start (schema : Schema) : Iteration := ⟨schema.namespaces.reverse, []⟩

/-- A child is yielded if it is a type, and kept behind the nested namespaces met before it otherwise. -/
def meet (met : List TypeDecl × List Namespace) : Node → List TypeDecl × List Namespace
  | .type t => (met.1 ++ [t], met.2)
  | .space name fullName options children => (met.1, met.2 ++ [⟨name, fullName, options, children⟩])

/-- The loop after a step: the namespace on top is taken off, its children are met in their order, and the
nested ones are pushed in reverse. -/
def next? (it : Iteration) : Option Iteration :=
  it.stack.getLast?.map fun ns =>
    let met := ns.children.foldl meet (it.yielded, [])
    ⟨it.stack.dropLast ++ met.2.reverse, met.1⟩

/-- The loop gets from one state to another. -/
def Runs : Iteration → Iteration → Prop := Relation.ReflTransGen fun a b => a.next? = some b

theorem foldl_meet (children : List Node) : ∀ met, children.foldl meet met =
    (met.1 ++ children.filterMap Node.type?, met.2 ++ children.filterMap Node.space?) := by
  induction children with
  | nil =>
    intro met
    simp
  | cons child rest ih =>
    intro met
    rw [List.foldl_cons, ih]
    cases child <;> simp [meet, List.filterMap_cons, Node.type?, Node.space?]

/-- A step in one go: the types of the namespace on top are yielded, and its namespaces take its place, the
first one on top. -/
theorem next?_concat (stack : List Namespace) (ns : Namespace) (yielded : List TypeDecl) :
    next? ⟨stack ++ [ns], yielded⟩ = some ⟨stack ++ ns.spaces.reverse, yielded ++ ns.types⟩ := by
  simp [next?, foldl_meet, Namespace.spaces, Namespace.types]

theorem eq_concat_of_next? {a b : Iteration} (h : a.next? = some b) : ∃ stack ns, a.stack = stack ++ [ns] := by
  rcases List.eq_nil_or_concat a.stack with hnil | ⟨stack, ns, hconcat⟩
  · simp [next?, hnil] at h
  · exact ⟨stack, ns, hconcat.trans List.concat_eq_append⟩

/-- What has been yielded, and what the stack leads to. -/
def total (it : Iteration) : List TypeDecl := it.yielded ++ Namespace.typesFrom it.stack.reverse

/-- What a step yields is what the stack leads to next. -/
theorem total_next? {a b : Iteration} (h : a.next? = some b) : b.total = a.total := by
  obtain ⟨stack, ns, hstack⟩ := eq_concat_of_next? h
  obtain ⟨_, yielded⟩ := a
  obtain rfl := hstack
  rw [next?_concat] at h
  cases h
  rw [total, total, List.reverse_append, List.reverse_reverse, List.reverse_concat, Namespace.typesFrom,
    List.append_assoc]

theorem Runs.total_eq {a b : Iteration} (h : Runs a b) : b.total = a.total := by
  induction h with
  | refl => rfl
  | tail _ hstep ih => exact (total_next? hstep).trans ih

/-- The loop empties its stack. -/
theorem runs_of_reverse (waiting : List Namespace) : ∀ yielded,
    Runs ⟨waiting.reverse, yielded⟩ ⟨[], yielded ++ Namespace.typesFrom waiting⟩ := by
  induction waiting using Namespace.typesFrom.induct with
  | case1 =>
    intro yielded
    rw [Namespace.typesFrom, List.append_nil]
    exact .refl
  | case2 ns waiting ih =>
    intro yielded
    have hrest := ih (yielded ++ ns.types)
    rw [List.reverse_append, List.append_assoc] at hrest
    rw [List.reverse_cons, Namespace.typesFrom]
    exact .head (next?_concat waiting.reverse ns yielded) hrest

/-- **The loop ends** with the types of the schema, and with nothing else. -/
theorem runs_start_iff {schema : Schema} {ts : List TypeDecl} :
    Runs (start schema) ⟨[], ts⟩ ↔ ts = schema.types := by
  constructor
  · intro h
    have htotal := h.total_eq
    rwa [total, total, start, List.reverse_nil, Namespace.typesFrom, List.append_nil, List.nil_append,
      List.reverse_reverse] at htotal
  · rintro rfl
    exact runs_of_reverse schema.namespaces []

/-- What the loop has yielded at any time is how the types of the schema begin. -/
theorem Runs.yielded_begins {schema : Schema} {it : Iteration} (h : Runs (start schema) it) :
    it.yielded <+: schema.types := by
  refine ⟨Namespace.typesFrom it.stack.reverse, ?_⟩
  have htotal := h.total_eq
  rwa [total, total, start, List.nil_append, List.reverse_reverse] at htotal

end Iteration

/-! ## Where the types stand -/

mutual

/-- The types within a node in the order of the recursion, each behind the names that lead to it from there. -/
def Node.placedTypes : Node → List (List String × TypeDecl)
  | .type _ => []
  | .space _ _ _ children =>
    (children.filterMap Node.type?).map (fun t => ([t.name], t)) ++ Node.allPlacedTypes children

/-- The types within some nodes. -/
def Node.allPlacedTypes : List Node → List (List String × TypeDecl)
  | [] => []
  | node :: rest => node.placedTypes.map (fun (path, t) => (node.name :: path, t)) ++ Node.allPlacedTypes rest

end

/-- The types of a schema in the order of the recursion, each behind the names that lead to it. -/
def Schema.placedTypes (schema : Schema) : List (List String × TypeDecl) :=
  Node.allPlacedTypes (schema.namespaces.map Namespace.toNode)

/-- The names in one place are distinct, so that everything stands under a name of its own. -/
structure Schema.Keyed (schema : Schema) : Prop where
  names_nodup : (schema.namespaces.map Namespace.name).Nodup
  children_nodup : ∀ ns ∈ schema.spaces, (ns.children.map Node.name).Nodup

instance (schema : Schema) : Decidable schema.Keyed :=
  decidable_of_iff ((schema.namespaces.map Namespace.name).Nodup ∧
    ∀ ns ∈ schema.spaces, (ns.children.map Node.name).Nodup) ⟨fun ⟨a, b⟩ => ⟨a, b⟩, fun ⟨a, b⟩ => ⟨a, b⟩⟩

namespace Node

mutual

theorem map_snd_placedTypes (node : Node) : node.placedTypes.map Prod.snd = node.typesWithin := by
  match node with
  | .type _ => rfl
  | .space name fullName options children =>
    rw [placedTypes, typesWithin, List.map_append, List.map_map, map_snd_allPlacedTypes children]
    simp [Function.comp_def]

theorem map_snd_allPlacedTypes (nodes : List Node) : (allPlacedTypes nodes).map Prod.snd = allTypesWithin nodes := by
  match nodes with
  | [] => rfl
  | node :: rest =>
    rw [allPlacedTypes, allTypesWithin, List.map_append, List.map_map, map_snd_allPlacedTypes rest,
      ← map_snd_placedTypes node]
    rfl

end

theorem mem_allPlacedTypes_iff {nodes : List Node} {path : List String} {t : TypeDecl} :
    (path, t) ∈ allPlacedTypes nodes ↔
      ∃ node ∈ nodes, ∃ rest, (rest, t) ∈ node.placedTypes ∧ path = node.name :: rest := by
  induction nodes with
  | nil => simp [allPlacedTypes]
  | cons node others ih => simp [allPlacedTypes, ih, eq_comm]

theorem ne_nil_of_mem_placedTypes {node : Node} {path : List String} {t : TypeDecl}
    (h : (path, t) ∈ node.placedTypes) : path ≠ [] := by
  cases node with
  | type _ => cases h
  | space name fullName options children =>
    rcases List.mem_append.1 h with h | h
    · obtain ⟨t, -, heq⟩ := List.mem_map.1 h
      cases heq
      exact List.cons_ne_nil _ _
    · obtain ⟨node, -, rest, -, rfl⟩ := mem_allPlacedTypes_iff.1 h
      exact List.cons_ne_nil _ _

mutual

/-- What is placed at a path is the type that stands there. -/
theorem mem_placedTypes_iff (node : Node) (h : ∀ ns ∈ node.spaces, (ns.children.map Node.name).Nodup)
    (t : TypeDecl) (path : List String) :
    (path, t) ∈ node.placedTypes ↔ path ≠ [] ∧ node.look? path = some (.type t) := by
  match node with
  | .type _ =>
    cases path with
    | nil => simp [placedTypes]
    | cons name rest => simp [placedTypes, look?]
  | .space own fullName options children =>
    have hnodup : (children.map Node.name).Nodup := h ⟨own, fullName, options, children⟩ List.mem_cons_self
    have ih := mem_placedTypes_of_all children (fun ns hns => h ns (List.mem_cons_of_mem _ hns)) t
    cases path with
    | nil => exact iff_of_false (fun hmem => ne_nil_of_mem_placedTypes hmem rfl) (fun hne => hne.1 rfl)
    | cons name rest =>
      have hlook : (space own fullName options children).look? (name :: rest) = some (.type t) ↔
          ∃ child ∈ children, child.name = name ∧ child.look? rest = some (.type t) := by
        simp only [look?, Option.bind_eq_some_iff, find?_key_eq_some_iff hnodup, and_assoc]
      rw [hlook, placedTypes, List.mem_append, mem_allPlacedTypes_iff]
      constructor
      · rintro (hown | ⟨child, hchild, rest, hplaced, heq⟩)
        · obtain ⟨u, hu, heq⟩ := List.mem_map.1 hown
          obtain ⟨child, hchild, htype⟩ := List.mem_filterMap.1 hu
          obtain rfl := type?_eq_some_iff.1 htype
          cases heq
          exact ⟨List.cons_ne_nil _ _, _, hchild, rfl, rfl⟩
        · cases heq
          exact ⟨List.cons_ne_nil _ _, child, hchild, rfl, ((ih child hchild rest).1 hplaced).2⟩
      · rintro ⟨-, child, hchild, rfl, hstands⟩
        -- a child that is a type ends the path, and a path goes on below a namespace only
        cases rest with
        | nil =>
          cases child with
          | type u =>
            cases hstands
            exact .inl (List.mem_map.2 ⟨t, List.mem_filterMap.2 ⟨_, hchild, rfl⟩, rfl⟩)
          | space _ _ _ _ => cases hstands
        | cons next rest =>
          exact .inr ⟨child, hchild, _, (ih child hchild _).2 ⟨List.cons_ne_nil _ _, hstands⟩, rfl⟩

theorem mem_placedTypes_of_all (nodes : List Node)
    (h : ∀ ns ∈ allSpaces nodes, (ns.children.map Node.name).Nodup) (t : TypeDecl) :
    ∀ node ∈ nodes, ∀ path, (path, t) ∈ node.placedTypes ↔ path ≠ [] ∧ node.look? path = some (.type t) := by
  match nodes with
  | [] => exact fun _ hnode => nomatch hnode
  | node :: rest =>
    exact List.forall_mem_cons.2 ⟨mem_placedTypes_iff node (fun ns hns => h ns (List.mem_append_left _ hns)) t,
      mem_placedTypes_of_all rest (fun ns hns => h ns (List.mem_append_right _ hns)) t⟩

end

mutual

/-- No path is listed twice. -/
theorem places_nodup (node : Node) (h : ∀ ns ∈ node.spaces, (ns.children.map Node.name).Nodup) :
    (node.placedTypes.map Prod.fst).Nodup := by
  match node with
  | .type _ => exact List.nodup_nil
  | .space own fullName options children =>
    have hnodup : (children.map Node.name).Nodup := h ⟨own, fullName, options, children⟩ List.mem_cons_self
    have ih := allPlaces_nodup children hnodup fun ns hns => h ns (List.mem_cons_of_mem _ hns)
    have hown : ((children.filterMap Node.type?).map fun t => [t.name]).Nodup := by
      have hnames := (Schema.names_types_nodup ⟨own, fullName, options, children⟩ hnodup).map
        List.singleton_injective
      rwa [List.map_map] at hnames
    rw [placedTypes, List.map_append, List.map_map]
    refine List.nodup_append.2 ⟨hown, ih, ?_⟩
    -- the path of a type in a nested namespace has more than one name
    rintro _ hshort _ hlong rfl
    obtain ⟨u, -, hu⟩ := List.mem_map.1 hshort
    obtain ⟨⟨path, t⟩, hplaced, hpath⟩ := List.mem_map.1 hlong
    obtain ⟨child, -, rest, hrest, rfl⟩ := mem_allPlacedTypes_iff.1 hplaced
    have heq : child.name :: rest = [u.name] := hpath.trans hu.symm
    exact ne_nil_of_mem_placedTypes hrest (List.cons.inj heq).2

theorem allPlaces_nodup (nodes : List Node) (hnames : (nodes.map Node.name).Nodup)
    (h : ∀ ns ∈ allSpaces nodes, (ns.children.map Node.name).Nodup) :
    ((allPlacedTypes nodes).map Prod.fst).Nodup := by
  match nodes with
  | [] => exact List.nodup_nil
  | node :: rest =>
    rw [List.map_cons, List.nodup_cons] at hnames
    have ih := places_nodup node fun ns hns => h ns (List.mem_append_left _ hns)
    have ihRest := allPlaces_nodup rest hnames.2 fun ns hns => h ns (List.mem_append_right _ hns)
    have hfirst := ih.map (List.cons_injective (a := node.name))
    rw [List.map_map] at hfirst
    rw [allPlacedTypes, List.map_append, List.map_map]
    refine List.nodup_append.2 ⟨hfirst, ihRest, ?_⟩
    -- paths into two nodes begin with their names
    rintro _ hhere _ hthere rfl
    obtain ⟨⟨_, _⟩, -, hpath⟩ := List.mem_map.1 hhere
    obtain ⟨⟨path, t⟩, hplaced, hother⟩ := List.mem_map.1 hthere
    obtain ⟨child, hchild, below, -, rfl⟩ := mem_allPlacedTypes_iff.1 hplaced
    have hname : child.name = node.name := (List.cons.inj (hother.trans hpath.symm)).1
    exact hnames.1 (List.mem_map.2 ⟨child, hchild, hname⟩)

end

end Node

/-! ## Reading the document of a schema -/

namespace Value

/-- How a declaration is read: its section of types before its section of namespaces, wherever they stand, or
its sections from the top to the bottom. -/
inductive Reading where
  | bySection
  | fromTop

mutual

/-- The definitions of types in a declaration as they are met in reading, each behind the keys that lead to it. -/
def typesRead (reading : Reading) : Value → List (List Scalar × Value)
  | .mapping _ content =>
    match reading with
    | .bySection => sectionsRead reading ["types"] content ++ sectionsRead reading ["namespaces"] content
    | .fromTop => sectionsRead reading ["types", "namespaces"] content
  | _ => []

/-- The definitions in the sections of some names. Those of types hold them, the others declare namespaces. -/
def sectionsRead (reading : Reading) (names : List String) : List (Scalar × Value) → List (List Scalar × Value)
  | [] => []
  | (.text name, .mapping _ content) :: rest =>
    (if name ∉ names then []
      else if name = "types" then content.map fun (key, definition) => ([key], definition)
      else eachRead reading content) ++ sectionsRead reading names rest
  | _ :: rest => sectionsRead reading names rest

/-- The definitions below entries that declare namespaces, one after the other. -/
def eachRead (reading : Reading) : List (Scalar × Value) → List (List Scalar × Value)
  | [] => []
  | (key, v) :: rest =>
    (v.typesRead reading).map (fun (keys, definition) => (key :: keys, definition)) ++ eachRead reading rest

end

theorem sectionsRead_optionsEntry (reading : Reading) {names : List String} (h : "options" ∉ names)
    (options : Mapping) : sectionsRead reading names (Mapping.named (optionsEntry options)) = [] := by
  cases options with
  | nil => rfl
  | cons entry rest => simp [Mapping.named, optionsEntry, sectionsRead, h]

/-- What is read in a written namespace: its types stand before the namespaces in it. -/
theorem sectionsRead_sections (reading : Reading) {names : List String} (h : "options" ∉ names)
    (types nested : List (String × Value)) (options : Mapping) :
    sectionsRead reading names (Mapping.named (Namespace.sections types nested options)) =
      (if "types" ∈ names then types.map fun (name, v) => ([.text name], v) else []) ++
        if "namespaces" ∈ names then eachRead reading (Mapping.named nested) else [] := by
  have hoptions := sectionsRead_optionsEntry reading h options
  cases types <;> cases nested <;>
    simp_all [Mapping.named, Namespace.sections, sectionsRead, eachRead, record, Function.comp_def]

/-- However a written namespace is read, its types are met before those of the namespaces in it. -/
theorem typesRead_sections (reading : Reading) (types nested : List (String × Value)) (options : Mapping) :
    (record (Namespace.sections types nested options)).typesRead reading =
      types.map (fun (name, v) => ([.text name], v)) ++ eachRead reading (Mapping.named nested) := by
  show (mapping none (Mapping.named (Namespace.sections types nested options))).typesRead reading = _
  cases reading <;> simp [typesRead, sectionsRead_sections]

/-- A type and the names that lead to it, as both are written. -/
def placed (p : List String × TypeDecl) : List Scalar × Value := (p.1.map .text, p.2.toValue)

mutual

theorem typesRead_spaceValue (reading : Reading) (node : Node) {name : String} {v : Value}
    (hentry : node.spaceEntry? = some (name, v)) : v.typesRead reading = node.placedTypes.map placed := by
  match node with
  | .space own fullName options children =>
    have ih := eachRead_spaceEntries reading children
    cases hentry
    have hread := typesRead_sections reading (Node.typeEntries children) (Node.spaceEntries children) options
    rw [ih, Node.typeEntries, List.map_map] at hread
    rw [Node.placedTypes, List.map_append, List.map_map]
    exact hread

theorem eachRead_spaceEntries (reading : Reading) (nodes : List Node) :
    eachRead reading (Mapping.named (Node.spaceEntries nodes)) = (Node.allPlacedTypes nodes).map placed := by
  match nodes with
  | [] => rfl
  | .type _ :: rest => exact eachRead_spaceEntries reading rest
  | .space name fullName options children :: rest =>
    have ih := typesRead_spaceValue reading (.space name fullName options children) rfl
    have ihRest := eachRead_spaceEntries reading rest
    rw [Node.allPlacedTypes, List.map_append, List.map_map, ← ihRest]
    show (typesRead reading _).map _ ++ _ = _
    rw [ih, List.map_map]
    rfl

end

/-- **Reading the document** of a schema meets its types in the order of the recursion. -/
theorem typesRead_toValue (reading : Reading) (schema : Schema) :
    schema.toValue.typesRead reading = schema.placedTypes.map placed := by
  rw [Schema.placedTypes, ← eachRead_spaceEntries reading]
  show (record [("namespaces", .mapping none (Mapping.named _))]).typesRead reading = _
  cases reading <;> simp [record, typesRead, sectionsRead]

end Value

namespace Schema

/-- What is placed at a path of the schema is the type that stands there. -/
theorem mem_placedTypes_iff {schema : Schema} (h : schema.Keyed) {path : List String} {t : TypeDecl} :
    (path, t) ∈ schema.placedTypes ↔ schema.look? path = some (.type t) := by
  have hplaced : ∀ ns ∈ schema.namespaces, ∀ rest,
      (rest, t) ∈ ns.toNode.placedTypes ↔ ns.look? rest = some (.type t) := by
    intro ns hns rest
    have hbelow := Node.mem_placedTypes_of_all _ h.children_nodup t ns.toNode (List.mem_map_of_mem hns) rest
    refine hbelow.trans ⟨And.right, fun hstands => ⟨?_, hstands⟩⟩
    rintro rfl
    cases hstands
  rw [placedTypes, Node.mem_allPlacedTypes_iff]
  constructor
  · rintro ⟨node, hnode, rest, hrest, rfl⟩
    obtain ⟨ns, hns, rfl⟩ := List.mem_map.1 hnode
    have htop : schema.top? ns.name = some ns := (find?_key_eq_some_iff h.names_nodup).2 ⟨hns, rfl⟩
    rw [Namespace.name_toNode, look?, htop, Option.bind_some]
    exact (hplaced ns hns rest).1 hrest
  · intro hstands
    cases path with
    | nil => cases hstands
    | cons name rest =>
      obtain ⟨ns, htop, hbelow⟩ := Option.bind_eq_some_iff.1 hstands
      obtain ⟨hns, rfl⟩ := (find?_key_eq_some_iff h.names_nodup).1 htop
      exact ⟨ns.toNode, List.mem_map_of_mem hns, rest, (hplaced ns hns rest).2 hbelow, rfl⟩

theorem places_nodup {schema : Schema} (h : schema.Keyed) : (schema.placedTypes.map Prod.fst).Nodup := by
  refine Node.allPlaces_nodup _ ?_ h.children_nodup
  rw [List.map_map]
  exact h.names_nodup

/-- **The order of the types** is that of the recursion through the namespaces. A loop with a stack ends with the
types of the schema, and what it has yielded before is how they begin. The recursion gives them with the names
that lead to each; when the names in one place are distinct, it lists every type that stands at some path exactly
once. The document of the schema has them in the same order, whether it is read by sections or from the top. -/
theorem types_order (schema : Schema) (h : schema.Keyed) :
    (∀ ts, (Iteration.start schema).Runs ⟨[], ts⟩ ↔ ts = schema.types) ∧
      (∀ it, (Iteration.start schema).Runs it → it.yielded <+: schema.types) ∧
      schema.types = Node.allTypesWithin (schema.namespaces.map Namespace.toNode) ∧
      schema.types = schema.placedTypes.map Prod.snd ∧
      (schema.placedTypes.map Prod.fst).Nodup ∧
      (∀ path t, (path, t) ∈ schema.placedTypes ↔ schema.look? path = some (.type t)) ∧
      ∀ reading, schema.toValue.typesRead reading = schema.placedTypes.map Value.placed := by
  have hrecursion := schema.types_eq_allTypesWithin
  refine ⟨fun _ => Iteration.runs_start_iff, fun _ hruns => hruns.yielded_begins, hrecursion, ?_, places_nodup h,
    fun _ _ => mem_placedTypes_iff h, fun reading => Value.typesRead_toValue reading schema⟩
  rw [hrecursion, placedTypes, Node.map_snd_allPlacedTypes]

/-- Types and namespaces in turns, with names that come back in other places. -/
def interleaved : Schema :=
  ⟨[⟨"shop", "shop", [], [
      .space "admin" "shop.admin" [] [
        .type ⟨"Entry", "shop.admin", .message, [⟨"order", "Order", none, none, some ⟨"shop", "Order"⟩, []⟩], [], []⟩,
        .space "log" "shop.admin.log" [(.text "types", .int 1)] [
          .type ⟨"Order", "shop.admin.log", .message, [], [], []⟩],
        .type ⟨"Level", "shop.admin", .enum, [], [("LOW", 0)], []⟩],
      .type ⟨"Order", "shop", .message, [], [], []⟩,
      .space "types" "shop.types" [] [.type ⟨"Order", "shop.types", .message, [], [], []⟩],
      .type ⟨"Item", "shop", .message, [], [], []⟩]⟩,
    ⟨"geo", "geo", [], [.type ⟨"Point", "geo", .message, [], [], []⟩]⟩]⟩

theorem types_order_interleaved :
    interleaved.Keyed ∧
    (Iteration.start interleaved).Runs ⟨[], interleaved.types⟩ ∧
    interleaved.types.map TypeDecl.name = ["Order", "Item", "Entry", "Level", "Order", "Order", "Point"] ∧
    interleaved.look? ["shop", "admin", "log", "Order"] =
      some (.type ⟨"Order", "shop.admin.log", .message, [], [], []⟩) ∧
    ∀ reading, (interleaved.toValue.typesRead reading).map Prod.fst =
      [[.text "shop", .text "Order"], [.text "shop", .text "Item"],
        [.text "shop", .text "admin", .text "Entry"], [.text "shop", .text "admin", .text "Level"],
        [.text "shop", .text "admin", .text "log", .text "Order"], [.text "shop", .text "types", .text "Order"],
        [.text "geo", .text "Point"]] := by
  have hkeyed : interleaved.Keyed := by decide
  obtain ⟨hruns, -, hrecursion, -, -, hplaced, hread⟩ := types_order interleaved hkeyed
  refine ⟨hkeyed, (hruns _).2 rfl, ?_, (hplaced _ _).1 ?_, fun reading => ?_⟩
  · rw [hrecursion]
    rfl
  · simp [placedTypes, interleaved, Node.allPlacedTypes, Node.placedTypes, Namespace.toNode, Node.type?, Node.name]
  · rw [hread]
    rfl

end Schema

end SchemaClosure
