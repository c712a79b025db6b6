import SchemaClosure.Proofs.Schema.Loading
import SchemaClosure.Proofs.Schema.TypesFirst
import SchemaClosure.Schema.Files

/-!
# Loading what was written

The document of a schema declares each of its namespaces once, with the types before the nested
namespaces. Merging it puts every declared child behind the ones before it, so nothing collides, and what
comes out is the schema with its types first (`mergeAll_toValue`). The references are found again because
they depend only on where types are. Main theorem `Loaded.reload`.
-/

namespace SchemaClosure

open Mapping (named)

/-- What the document of a schema declares. -/
def Schema.reload (source : String) (schema : Schema) : Except LoadError Schema := do
  let document ← SchemaDocument.ofValue source schema.toValue
  Schema.ofDocuments [document]

/-! ## Putting something new -/

theorem Node.put_of_not_mem {child : Node} {nodes : List Node} (h : child.name ∉ nodes.map Node.name) :
    put child nodes = nodes ++ [child] := by
  induction nodes with
  | nil => rfl
  | cons node rest ih =>
    simp only [List.map_cons, List.mem_cons, not_or] at h
    simp [put, Ne.symm h.1, ih h.2]

namespace Namespace

theorem put_of_not_mem {new : Namespace} {namespaces : List Namespace}
    (h : new.name ∉ namespaces.map Namespace.name) : put new namespaces = namespaces ++ [new] := by
  have hnodes : Node.put new.toNode (namespaces.map toNode) = namespaces.map toNode ++ [new.toNode] :=
    Node.put_of_not_mem (by rwa [List.map_map])
  rw [← map_toNode_put] at hnodes
  refine List.map_injective_iff.2 (fun a b => toNode_inj) ?_
  rw [hnodes, List.map_append]
  rfl

theorem child?_of_not_mem {ns : Namespace} {name : String} (h : name ∉ ns.children.map Node.name) :
    ns.child? name = none :=
  child?_eq_none_iff.2 fun _ hnode hname => h (hname ▸ List.mem_map_of_mem hnode)

/-- A namespace with further children behind its own. -/
def extend (ns : Namespace) (children : List Node) : Namespace :=
  { ns with children := ns.children ++ children }

@[simp] theorem extend_nil (ns : Namespace) : ns.extend [] = ns := by
  simp [extend]

@[simp] theorem extend_extend (ns : Namespace) (a b : List Node) :
    (ns.extend a).extend b = ns.extend (a ++ b) := by
  simp [extend]

theorem add_of_not_mem {ns : Namespace} {child : Node} (h : child.name ∉ ns.children.map Node.name) :
    ns.add child = ns.extend [child] := by
  rw [add, Node.put_of_not_mem h]
  rfl

/-! ## Types -/

/-- Written types are added in order. -/
theorem addTypes_named {source owner : String} {types : List TypeDecl} : ∀ {ns : Namespace},
    (∀ t ∈ types, t.owner = owner ∧ t.Canonical) →
    (ns.children.map Node.name ++ types.map TypeDecl.name).Nodup →
    addTypes source ns owner (named (types.map fun t => (t.name, t.toValue))) =
      .ok (ns.extend (types.map fun t => .type t.bare)) := by
  induction types with
  | nil =>
    intro ns _ _
    simp [named, addTypes]
  | cons t rest ih =>
    intro ns htypes hnodup
    obtain ⟨howner, hcanonical⟩ := htypes t List.mem_cons_self
    have hnew : t.name ∉ ns.children.map Node.name := by
      rw [List.map_cons, List.nodup_append] at hnodup
      exact fun hmem => hnodup.2.2 _ hmem _ List.mem_cons_self rfl
    have hadd : ns.add (.type t.bare) = ns.extend [.type t.bare] := add_of_not_mem hnew
    have hrest : ((ns.extend [.type t.bare]).children.map Node.name ++ rest.map TypeDecl.name).Nodup := by
      simpa [extend, Node.name, TypeDecl.bare] using hnodup
    have hparse := TypeDecl.parse_toValue hcanonical source
    rw [howner] at hparse
    simp only [named, List.map_cons, addTypes, bind_eq_ok_iff]
    refine ⟨t.name, rfl, ?_⟩
    simp only [child?_of_not_mem hnew, Option.isSome_none, Bool.false_eq_true, if_false, bind_eq_ok_iff]
    refine ⟨t.bare, hparse, ?_⟩
    rw [hadd]
    have htail := ih (fun u hu => htypes u (List.mem_cons_of_mem _ hu)) hrest
    simpa [named] using htail

/-! ## Sections -/

/-- The entries of the document of a namespace. -/
def sections (types nested : List (String × Value)) (options : Mapping) : List (String × Value) :=
  (if types.isEmpty then [] else [("types", .record types)])
    ++ (if nested.isEmpty then [] else [("namespaces", .record nested)])
    ++ Value.optionsEntry options

theorem lookup_types_sections {types nested : List (String × Value)} {options : Mapping} :
    (sections types nested options).lookup "types" =
      if types.isEmpty then none else some (.record types) := by
  unfold sections
  by_cases htypes : types.isEmpty <;> by_cases hnested : nested.isEmpty <;>
    simp [htypes, hnested, List.lookup_cons, Value.lookup_optionsEntry]

theorem lookup_options_sections {types nested : List (String × Value)} {options : Mapping} :
    (sections types nested options).lookup "options" = (Value.optionsEntry options).lookup "options" := by
  unfold sections
  by_cases htypes : types.isEmpty <;> by_cases hnested : nested.isEmpty <;>
    simp [htypes, hnested, List.lookup_cons]

/-- Options and types are merged as they were written. -/
theorem mergeOwn_sections {source name fullName : String} {types : List TypeDecl}
    {nested : List (String × Value)} {options : Mapping} (hoptions : options.Distinct)
    (htypes : ∀ t ∈ types, t.owner = fullName ∧ t.Canonical) (hnodup : (types.map TypeDecl.name).Nodup) :
    mergeOwn source (empty name fullName) fullName
      (named (sections (types.map fun t => (t.name, t.toValue)) nested options)) =
      .ok ⟨name, fullName, options, types.map fun t => .type t.bare⟩ := by
  simp only [mergeOwn, bind_eq_ok_iff, Value.field_named]
  refine ⟨options, ?_, named (types.map fun t => (t.name, t.toValue)), ?_, ?_⟩
  · rw [lookup_options_sections]
    exact Value.entriesOrNone_options options
  · rw [lookup_types_sections]
    cases types with
    | nil => rfl
    | cons t rest => exact Value.entriesOrNone_mapping _
  · have hupdate : Mapping.update [] options = options := Mapping.update_of_distinct (m := []) hoptions
    rw [addTypes_named htypes (by simpa [empty] using hnodup)]
    simp [empty, extend, hupdate]

/-- The nested namespaces are found behind the types. -/
theorem mergeSection_sections {beyond : Merging} {source fullName : String} {ns : Namespace}
    (types nested : List (String × Value)) (options : Mapping) :
    mergeSection beyond source fullName ns (named (sections types nested options)) =
      mergeChildren beyond source fullName ns (named nested) := by
  have hoptions :
      mergeSection beyond source fullName ns (named (Value.optionsEntry options)) = .ok ns := by
    unfold Value.optionsEntry
    split
    · simp [named, mergeSection]
    · exact mergeSection_of_not_same rfl _ []
  have hnested : mergeSection beyond source fullName ns
      (named ((if nested.isEmpty then [] else [("namespaces", .record nested)])
        ++ Value.optionsEntry options)) =
      mergeChildren beyond source fullName ns (named nested) := by
    cases nested with
    | nil => simpa [named, mergeChildren] using hoptions
    | cons first rest => simp [named, mergeSection, Scalar.same, Value.record]
  unfold sections
  cases types with
  | nil => exact hnested
  | cons first rest => exact (mergeSection_of_not_same rfl _ _).trans hnested

/-! ## Namespaces -/

/-- The namespace as it comes back from its document before the references are resolved. -/
def reloaded (ns : Namespace) : Namespace := (ns.mapTypes TypeDecl.bare).typesFirst

theorem children_reloaded (ns : Namespace) : ns.reloaded.children =
    (ns.types.map fun t => .type t.bare) ++ ns.spaces.map fun child => child.reloaded.toNode := by
  rw [reloaded, children_typesFirst, types_mapTypes, spaces_mapTypes, List.map_map, List.map_map,
    List.map_map]
  rfl

theorem Sound.names_nodup {ns : Namespace} (h : ns.Sound) :
    (ns.types.map TypeDecl.name ++ ns.spaces.map Namespace.name).Nodup := by
  have hperm := (Node.sorted_perm ns.children).map Node.name
  rw [Node.sorted, List.map_append, List.map_map, List.map_map] at hperm
  exact hperm.nodup_iff.2 h.children_nodup

theorem mergeChild_of_new {source fullName name : String} {ns new : Namespace}
    {merging : String → Namespace → Except LoadError Namespace} (h : name ∉ ns.children.map Node.name)
    (hmerging : merging s!"{fullName}.{name}" (empty name s!"{fullName}.{name}") = .ok new)
    (hname : new.name = name) :
    mergeChild source fullName ns (.text name) merging = .ok (ns.extend [new.toNode]) := by
  have hadd : ns.add new.toNode = ns.extend [new.toNode] := add_of_not_mem (by rwa [name_toNode, hname])
  simp only [mergeChild, bind_eq_ok_iff]
  refine ⟨name, rfl, ?_⟩
  simp only [child?_of_not_mem h, Option.bind_none, Option.getD_none, bind_eq_ok_iff]
  exact ⟨new, hmerging, by rw [hadd]; rfl⟩

end Namespace

open Namespace in
mutual

/-- Merging the document of a namespace into nothing gives it back. -/
theorem Node.mergeWith_document (beyond : Merging) (source : String) (node : Node) {ns : Namespace}
    (hnode : node.space? = some ns) (hsound : ns.AllSound) :
    mergeWith beyond source ns.fullName (empty ns.name ns.fullName)
      (Node.spaceValue ns.children (Node.spaceEntries ns.children) ns.options) = .ok ns.reloaded := by
  match node with
  | .space name fullName options children =>
    cases hnode
    obtain ⟨hself, hbelow⟩ := allSound_iff.1 hsound
    let ns : Namespace := ⟨name, fullName, options, children⟩
    let own : Namespace := ⟨name, fullName, options, ns.types.map fun t => .type t.bare⟩
    have hnames := hself.names_nodup
    have hown : mergeOwn source (empty name fullName) fullName
        (named (sections (Node.typeEntries children) (Node.spaceEntries children) options)) = .ok own :=
      mergeOwn_sections hself.options (fun t ht => ⟨hself.owner t ht, hself.canonical t ht⟩)
        (List.nodup_append.1 hnames).1
    have hchildren : mergeChildren beyond source own.fullName own (named (Node.spaceEntries children)) =
        .ok (own.extend (ns.spaces.map fun child => child.reloaded.toNode)) := by
      apply Node.mergeChildren_document beyond source children
      · intro child hchild
        have hmem : child ∈ ns.spaces := mem_spaces.2 hchild
        exact ⟨hbelow child hmem, hself.below_fullName child hmem⟩
      · have hown : own.children.map Node.name = ns.types.map TypeDecl.name := by
          simp only [own, List.map_map]
          rfl
        rw [hown]
        exact hnames
    have hreloaded : own.extend (ns.spaces.map fun child => child.reloaded.toNode) = ns.reloaded := by
      show Namespace.mk name fullName options _ = Namespace.mk name fullName options ns.reloaded.children
      rw [children_reloaded]
    show mergeWith beyond source fullName (empty name fullName)
      (.mapping none (named (sections (Node.typeEntries children) (Node.spaceEntries children) options))) =
        .ok ns.reloaded
    simp only [mergeWith, bind_eq_ok_iff]
    refine ⟨own, hown, ?_⟩
    rw [mergeSection_sections, ← hreloaded]
    exact hchildren

/-- Nested namespaces are added in order. -/
theorem Node.mergeChildren_document (beyond : Merging) (source : String) (nodes : List Node)
    {ns : Namespace} (hchildren : ∀ child : Namespace, child.toNode ∈ nodes →
      child.AllSound ∧ child.fullName = ns.fullName ++ "." ++ child.name)
    (hnodup : (ns.children.map Node.name ++ (nodes.filterMap Node.space?).map Namespace.name).Nodup) :
    mergeChildren beyond source ns.fullName ns (named (Node.spaceEntries nodes)) =
      .ok (ns.extend ((nodes.filterMap Node.space?).map fun child => child.reloaded.toNode)) := by
  match nodes with
  | [] => simp [Node.spaceEntries, named, mergeChildren]
  | .type t :: rest =>
    have ih := Node.mergeChildren_document beyond source rest
      (fun child hchild => hchildren child (List.mem_cons_of_mem _ hchild)) hnodup
    exact ih
  | .space name fullName options children :: rest =>
    let child : Namespace := ⟨name, fullName, options, children⟩
    obtain ⟨hsound, hfull⟩ := hchildren child List.mem_cons_self
    have hself := Node.mergeWith_document beyond source (.space name fullName options children) rfl hsound
    have hnew : name ∉ ns.children.map Node.name := by
      rw [List.nodup_append] at hnodup
      exact fun hmem => hnodup.2.2 _ hmem name (by simp [Node.space?]) rfl
    let next : Namespace := ns.extend [child.reloaded.toNode]
    have hchild : mergeChild source ns.fullName ns (.text name)
        (fun childName start => mergeWith beyond source childName start
          (Node.spaceValue children (Node.spaceEntries children) options)) = .ok next := by
      apply mergeChild_of_new hnew _ rfl
      have hchildName : s!"{ns.fullName}.{name}" = child.fullName := hfull.symm
      rw [hchildName]
      exact hself
    have hrest : mergeChildren beyond source next.fullName next (named (Node.spaceEntries rest)) =
        .ok (next.extend ((rest.filterMap Node.space?).map fun child => child.reloaded.toNode)) := by
      apply Node.mergeChildren_document beyond source rest
      · exact fun other hother => hchildren other (List.mem_cons_of_mem _ hother)
      · have hnames : next.children.map Node.name = ns.children.map Node.name ++ [name] := by
          rw [show next.children = ns.children ++ [child.reloaded.toNode] from rfl, List.map_append]
          rfl
        rw [hnames, List.append_assoc]
        exact hnodup
    rw [extend_extend] at hrest
    simp only [Node.spaceEntries, Node.spaceEntry?, Option.toList_some, List.singleton_append, named,
      List.map_cons, mergeChildren, bind_eq_ok_iff]
    exact ⟨_, hchild, hrest⟩

end

namespace Schema

/-! ## Documents -/

/-- Written namespaces are added in order. -/
theorem mergeNamespaces_document {source : String} {namespaces : List Namespace} : ∀ {schema : Schema},
    (∀ ns ∈ namespaces, ns.AllSound ∧ ns.fullName = ns.name) →
    (schema.namespaces.map Namespace.name ++ namespaces.map Namespace.name).Nodup →
    schema.mergeNamespaces source (named (Node.spaceEntries (namespaces.map Namespace.toNode))) =
      .ok ⟨schema.namespaces ++ namespaces.map Namespace.reloaded⟩ := by
  induction namespaces with
  | nil =>
    intro schema _ _
    simp [Node.spaceEntries, named, mergeNamespaces]
  | cons ns rest ih =>
    intro schema hnamespaces hnodup
    obtain ⟨hsound, hfull⟩ := hnamespaces ns List.mem_cons_self
    have hnew : ns.reloaded.name ∉ schema.namespaces.map Namespace.name := by
      rw [List.map_cons, List.nodup_append] at hnodup
      exact fun hmem => hnodup.2.2 _ hmem ns.name List.mem_cons_self rfl
    have hcontinued : schema.continued? (.text ns.name) = none := by
      simp only [continued?, top?, List.find?_eq_none, beq_iff_eq]
      exact fun other hother hname => hnew (hname ▸ List.mem_map_of_mem hother)
    have hmerge : Namespace.merge source ns.name (Namespace.empty ns.name ns.name)
        (Node.spaceValue ns.children (Node.spaceEntries ns.children) ns.options) = .ok ns.reloaded := by
      have h := Node.mergeWith_document (Namespace.mergeUpTo source 999) source ns.toNode
        (Namespace.space?_toNode ns) hsound
      rw [hfull] at h
      exact h
    let next : Schema := ⟨schema.namespaces ++ [ns.reloaded]⟩
    have hrest : next.mergeNamespaces source (named (Node.spaceEntries (rest.map Namespace.toNode))) =
        .ok ⟨next.namespaces ++ rest.map Namespace.reloaded⟩ := by
      apply ih
      · exact fun other hother => hnamespaces other (List.mem_cons_of_mem _ hother)
      · have hnames : next.namespaces.map Namespace.name =
            schema.namespaces.map Namespace.name ++ [ns.name] := by
          rw [show next.namespaces = schema.namespaces ++ [ns.reloaded] from rfl, List.map_append]
          rfl
        rw [hnames, List.append_assoc]
        exact hnodup
    simp only [List.map_cons, Namespace.toNode, Node.spaceEntries, Node.spaceEntry?, Option.toList_some,
      List.singleton_append, named, mergeNamespaces, bind_eq_ok_iff]
    refine ⟨ns.name, rfl, ns.reloaded, ?_, ?_⟩
    · rw [hcontinued]
      exact hmerge
    · rw [Namespace.put_of_not_mem hnew]
      simpa [next, named] using hrest

/-- What is merged from the document of a schema. -/
theorem mergeAll_toValue {schema : Schema} (h : schema.Merged) {source : String}
    {document : SchemaDocument} (hdocument : SchemaDocument.ofValue source schema.toValue = .ok document) :
    mergeAll ⟨[]⟩ [document] = .ok (schema.mapTypes TypeDecl.bare).typesFirst := by
  cases hdocument
  have hfind : ∀ entries : List (String × Value),
      mergeDocument ⟨[]⟩ ⟨source, named [("namespaces", .record entries)]⟩ =
        mergeNamespaces source ⟨[]⟩ (named entries) := by
    intro entries
    cases entries <;> rfl
  have hmerge : mergeNamespaces source ⟨[]⟩
      (named (Node.spaceEntries (schema.namespaces.map Namespace.toNode))) =
        .ok ⟨[] ++ schema.namespaces.map Namespace.reloaded⟩ := by
    apply mergeNamespaces_document
    · exact fun ns hns => ⟨allSound_of_mem h.sound hns, h.top_fullName ns hns⟩
    · exact h.names_nodup
  have hreloaded : (schema.mapTypes TypeDecl.bare).typesFirst =
      ⟨[] ++ schema.namespaces.map Namespace.reloaded⟩ := by
    simp [typesFirst, mapTypes, Namespace.reloaded]
  simp only [mergeAll, bind_eq_ok_iff]
  refine ⟨_, (hfind _).trans hmerge, ?_⟩
  rw [hreloaded]

/-! ## References -/

/-- **Loading what was written** gives the schema back with its types first. -/
theorem Loaded.reload {schema : Schema} (h : schema.Loaded) (source : String) :
    schema.reload source = .ok schema.typesFirst := by
  let merged : Schema := (schema.mapTypes TypeDecl.bare).typesFirst
  have hmerged : (schema.mapTypes TypeDecl.bare).Merged :=
    h.toMerged.mapTypes (fun _ => rfl) (fun _ => rfl) fun t ht => ht.mapFields (fun _ => ⟨rfl, rfl, rfl⟩)
  have hsome : ∀ a, (merged.type? a).isSome = (schema.type? a).isSome := by
    intro a
    rw [type?_typesFirst hmerged.toConsistent, type?_mapTypes (g := TypeDecl.bare) (fun _ => rfl),
      Option.isSome_map]
  have hself : ∀ t ∈ schema.types, merged.resolveType t.bare = t := by
    intro t ht
    have hfields : t.bare.fields.map (merged.resolveField t.owner) = t.fields := by
      rw [TypeDecl.bare, List.map_map]
      refine (List.map_congr_left fun f hf => ?_).trans (List.map_id _)
      exact (resolveField_congr hsome t.owner f).trans ((h.resolves t ht).resolved f hf)
    exact congrArg (fun fields => ({ t with fields := fields } : TypeDecl)) hfields
  simp only [Schema.reload, bind_eq_ok_iff]
  refine ⟨_, rfl, ofDocuments_eq_ok_iff.2 ⟨merged, mergeAll_toValue h.toMerged rfl, ?_, ?_⟩⟩
  · rw [resolveAll_eq_mapTypes, mapTypes_typesFirst, mapTypes_mapTypes, mapTypes_eq_self hself]
  · intro t' ht' f' hf'
    rw [types_typesFirst, types_mapTypes] at ht'
    obtain ⟨t, ht, rfl⟩ := List.mem_map.1 ht'
    obtain ⟨f, hf, rfl⟩ := List.mem_map.1 hf'
    rw [isUnresolvable_congr hsome _ rfl]
    exact (h.resolves t ht).resolvable f hf

end Schema

end SchemaClosure
