import SchemaClosure.Proofs.Schema.Loading

/-!
# Changing options where they stand

`Schema.mapOptions` changes the options of all namespaces, types and fields, and leaves everything else as it is. A
loaded schema stays one if the changed options of namespaces have distinct keys (`Schema.Loaded.mapOptions`).
-/

namespace SchemaClosure

mutual

/-- A node with the options of its namespaces changed by `h`. -/
def Node.mapSpaces (h : Mapping → Mapping) : Node → Node
  | .type t => .type t
  | .space name fullName options children =>
    .space name fullName (h options) (Node.mapAllSpaces h children)

/-- Some nodes with the options of their namespaces changed by `h`. -/
def Node.mapAllSpaces (h : Mapping → Mapping) : List Node → List Node
  | [] => []
  | node :: rest => node.mapSpaces h :: Node.mapAllSpaces h rest

end

/-- A namespace with its options, and those of the namespaces below it, changed by `h`. -/
def Namespace.mapSpaces (h : Mapping → Mapping) (ns : Namespace) : Namespace :=
  { ns with options := h ns.options, children := Node.mapAllSpaces h ns.children }

/-- A schema with the options of all namespaces changed by `h`. -/
def Schema.mapSpaces (h : Mapping → Mapping) (schema : Schema) : Schema :=
  ⟨schema.namespaces.map (Namespace.mapSpaces h)⟩

/-- A field with its options changed by `h`. -/
def Field.mapOptions (h : Mapping → Mapping) (f : Field) : Field := { f with options := h f.options }

/-- A type with its options, and those of its fields, changed by `h`. -/
def TypeDecl.mapOptions (h : Mapping → Mapping) (t : TypeDecl) : TypeDecl :=
  { t with fields := t.fields.map (Field.mapOptions h), options := h t.options }

/-- A schema with all options changed by `h`. -/
def Schema.mapOptions (h : Mapping → Mapping) (schema : Schema) : Schema :=
  (schema.mapSpaces h).mapTypes (TypeDecl.mapOptions h)

namespace Node

variable {h : Mapping → Mapping}

theorem mapAllSpaces_eq_map (nodes : List Node) : mapAllSpaces h nodes = nodes.map (Node.mapSpaces h) := by
  induction nodes with
  | nil => rfl
  | cons node rest ih => rw [mapAllSpaces, ih, List.map_cons]

@[simp] theorem name_mapSpaces (node : Node) : (node.mapSpaces h).name = node.name := by
  cases node <;> rfl

/-- Changing the options of namespaces is a change of the nodes that leaves types as they are. -/
theorem change_mapSpaces : Change (Node.mapSpaces h) (Namespace.mapSpaces h) id where
  type _ := rfl
  space _ := rfl
  children ns := mapAllSpaces_eq_map ns.children

theorem filterMap_type?_mapAllSpaces (nodes : List Node) :
    (mapAllSpaces h nodes).filterMap Node.type? = nodes.filterMap Node.type? := by
  rw [mapAllSpaces_eq_map, change_mapSpaces.filterMap_type?, List.map_id]

end Node

theorem TypeDecl.Canonical.mapOptions {h : Mapping → Mapping} {t : TypeDecl} (ht : t.Canonical) :
    (t.mapOptions h).Canonical := by
  have hchanged := ht.mapFields (g := Field.mapOptions h) fun _ => ⟨rfl, rfl, rfl⟩
  cases ht with
  | enum hvalues => exact .enum hvalues
  | message _ _ =>
    cases hchanged with
    | message hfields hnames => exact .message hfields hnames

namespace Schema

variable {h : Mapping → Mapping} {schema : Schema}

theorem map_toNode_mapSpaces (schema : Schema) : (schema.mapSpaces h).namespaces.map Namespace.toNode =
    Node.mapAllSpaces h (schema.namespaces.map Namespace.toNode) := by
  rw [Node.mapAllSpaces_eq_map, mapSpaces, Node.change_mapSpaces.map_toNode]

theorem types_mapSpaces (schema : Schema) : (schema.mapSpaces h).types = schema.types :=
  (Node.change_mapSpaces.schema_types schema).trans (List.map_id _)

theorem type?_mapSpaces (schema : Schema) (address : TypeAddress) :
    (schema.mapSpaces h).type? address = schema.type? address :=
  (Node.change_mapSpaces.schema_type? Node.name_mapSpaces schema address).trans Option.map_id_apply

theorem Merged.mapSpaces (hmerged : schema.Merged) (hdistinct : ∀ m : Mapping, (h m).Distinct) :
    (schema.mapSpaces h).Merged :=
  hmerged.change Node.change_mapSpaces Node.name_mapSpaces (fun _ => rfl) (fun _ _ => hdistinct _) (fun _ => rfl)
    fun _ => id

/-- **Changing options** leaves a loaded schema loaded. -/
theorem Loaded.mapOptions (hloaded : schema.Loaded) (hdistinct : ∀ m : Mapping, (h m).Distinct) :
    (schema.mapOptions h).Loaded := by
  have hsome : ∀ a, ((schema.mapOptions h).type? a).isSome = (schema.type? a).isSome := by
    intro a
    rw [Schema.mapOptions, type?_mapTypes (g := TypeDecl.mapOptions h) (fun _ => rfl), Option.isSome_map,
      type?_mapSpaces]
  refine ⟨(hloaded.toMerged.mapSpaces hdistinct).mapTypes (fun _ => rfl) (fun _ => rfl) fun _ ht => ht.mapOptions, ?_⟩
  intro t' ht'
  rw [Schema.mapOptions, types_mapTypes, types_mapSpaces] at ht'
  obtain ⟨t, ht, rfl⟩ := List.mem_map.1 ht'
  have hresolves := hloaded.resolves t ht
  constructor
  · intro f' hf'
    obtain ⟨f, hf, rfl⟩ := List.mem_map.1 hf'
    rw [resolveField_congr hsome]
    exact congrArg (Field.mapOptions h) (hresolves.resolved f hf)
  · intro f' hf'
    obtain ⟨f, hf, rfl⟩ := List.mem_map.1 hf'
    rw [isUnresolvable_congr hsome _ rfl]
    exact hresolves.resolvable f hf

end Schema

end SchemaClosure
