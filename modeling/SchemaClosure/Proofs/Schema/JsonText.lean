import SchemaClosure.Proofs.Document.Equality
import SchemaClosure.Proofs.Json.Rereading
import SchemaClosure.Proofs.Schema.MapOptions
import SchemaClosure.Proofs.Schema.RoundTrip
import SchemaClosure.Schema.Format

/-!
# A schema and its JSON text

The JSON text of a schema is a document in YAML, too. Loaded, it gives the schema with its options as they are read
again (`Mapping.reread`), for everything else in the document is a text, an integer, a list, or a mapping under
distinct texts. So the export comes back unchanged exactly if the options do.

Main theorem `ofText_dump`, with the smallest option that does not come back after it: JSON text spells the number
`1e+22` without a point, and YAML takes that for a text.
-/

namespace SchemaClosure

open Mapping (named)

/-- Options as they are read again from JSON text. -/
def Mapping.reread (options : Mapping) : Mapping := Mapping.ofEntries (Value.rereadEntries options)

namespace Mapping

theorem isEmpty_reread (options : Mapping) : options.reread.isEmpty = options.isEmpty := by
  have hput : ∀ {news m : Mapping}, m ≠ [] → m.update news ≠ [] := by
    intro news
    induction news with
    | nil => exact fun h => h
    | cons entry rest ih =>
      intro m hm
      obtain ⟨key, v⟩ := entry
      refine ih (m := m.put key v) ?_
      cases m with
      | nil => exact absurd rfl hm
      | cons first others =>
        rw [Mapping.put, Scalar.put]
        split <;> exact List.cons_ne_nil _ _
  cases options with
  | nil => rfl
  | cons entry rest =>
    rw [reread, Value.rereadEntries, ofEntries, List.isEmpty_cons, List.isEmpty_eq_false_iff]
    exact hput (m := [(entry.1.rereadKey, entry.2.reread)]) (List.cons_ne_nil _ _)

end Mapping

namespace Value

/-- Entries under names with their values as they are read again. -/
def rereadNamed (entries : List (String × Value)) : List (String × Value) :=
  entries.map fun entry => (entry.1, entry.2.reread)

@[simp] theorem rereadNamed_append (a b : List (String × Value)) :
    rereadNamed (a ++ b) = rereadNamed a ++ rereadNamed b := List.map_append

/-- What is asked for in a written mapping. -/
theorem all_record {scalar : Scalar → Bool} {keys : List Scalar → Bool} (entries : List (String × Value)) :
    (record entries).all scalar keys =
      (keys (entries.map fun entry => .text entry.1) && entries.all fun entry => entry.2.all scalar keys) := by
  have hvalues : ∀ entries : List (String × Value),
      allEntries scalar keys (named entries) = entries.all fun entry => entry.2.all scalar keys := by
    intro entries
    induction entries with
    | nil => rfl
    | cons entry rest ih => exact congrArg (_ && ·) ih
  show all scalar keys (.mapping none (named entries)) = _
  rw [all, hvalues, named, List.map_map]
  rfl

theorem all_list {scalar : Scalar → Bool} {keys : List Scalar → Bool} (mark : Option Mark) (items : List Value) :
    (list mark items).all scalar keys = items.all (·.all scalar keys) := by
  have hitems : allItems scalar keys items = items.all (·.all scalar keys) := by
    induction items with
    | nil => rfl
    | cons v rest ih => exact congrArg (_ && ·) ih
  rw [all, hitems]

/-- A written mapping without characters beyond the basic plane. -/
theorem isBasic_record_iff {entries : List (String × Value)} : (record entries).isBasic = true ↔
    ∀ entry ∈ entries, (Scalar.text entry.1).isBasic = true ∧ entry.2.isBasic = true := by
  rw [isBasic, all_record, Bool.and_eq_true, List.all_map, List.all_eq_true, List.all_eq_true, ← forall₂_and]
  rfl

/-- **A written mapping** is read again entry by entry. -/
theorem reread_record {entries : List (String × Value)} (hnodup : (entries.map Prod.fst).Nodup)
    (hbasic : (record entries).isBasic = true) : (record entries).reread = record (rereadNamed entries) := by
  have hkeys : (named entries).map Prod.fst = entries.map fun entry => .text entry.1 := by
    rw [named, List.map_map]
    rfl
  have hbasicKeys : ∀ entry ∈ entries, (Scalar.text entry.1).isBasic = true :=
    fun entry hentry => (isBasic_record_iff.1 hbasic entry hentry).1
  have hentries : ∀ entries : List (String × Value), (∀ entry ∈ entries, (Scalar.text entry.1).isBasic = true) →
      rereadEntries (named entries) = named (rereadNamed entries) := by
    intro entries hbasicKeys
    induction entries with
    | nil => rfl
    | cons entry rest ih =>
      have hkey := Scalar.rereadKey_text (hbasicKeys entry List.mem_cons_self)
      have hrest := ih fun other hother => hbasicKeys other (List.mem_cons_of_mem _ hother)
      show ((Scalar.text entry.1).rereadKey, entry.2.reread) :: rereadEntries (named rest) = _
      rw [hkey, hrest]
      rfl
  show mapping none (Mapping.ofEntries (rereadEntries (named entries))) = mapping none (named (rereadNamed entries))
  rw [ofEntries_rereadEntries, hentries entries hbasicKeys]
  · rw [hkeys, List.all_map, List.all_eq_true]
    exact fun _ _ => rfl
  · rw [hkeys, List.all_map, List.all_eq_true]
    exact hbasicKeys
  · have htext : Function.Injective Scalar.text := fun a b h => Scalar.text.inj h
    have hmap : (entries.map fun entry => Scalar.text entry.1) = (entries.map Prod.fst).map Scalar.text := by
      rw [List.map_map]
      rfl
    rw [hkeys, hmap]
    exact hnodup.map htext

theorem reread_text {s : String} (h : (Value.text s).isBasic = true) : (Value.text s).reread = .text s :=
  congrArg Value.text (Text.units_of_isBasic h)

theorem rereadNamed_optionsEntry (options : Mapping) :
    rereadNamed (optionsEntry options) = optionsEntry options.reread := by
  rw [optionsEntry, optionsEntry, Mapping.isEmpty_reread]
  split <;> rfl

end Value

open Value (rereadNamed rereadNamed_append rereadNamed_optionsEntry reread_text reread_record isBasic_record_iff)

/-! ## Documents of types -/

theorem Field.names_entries (f : Field) : (f.entries.map Prod.fst).Nodup := by
  unfold Field.entries Value.optionsEntry
  cases f.id <;> cases f.rule <;> cases f.options <;> simp

/-- The document of a field is read again as that of the field with its options read again. -/
theorem Field.reread_toValue {f : Field} (h : f.toValue.isBasic = true) :
    f.toValue.reread = (f.mapOptions Mapping.reread).toValue := by
  have hvalues : ∀ entry ∈ f.entries, entry.2.isBasic = true :=
    fun entry hentry => (isBasic_record_iff.1 h entry hentry).2
  have hname : (Value.text f.name).reread = .text f.name :=
    reread_text (hvalues ("name", .text f.name) (by simp [entries]))
  have htype : (Value.text f.typeName).reread = .text f.typeName :=
    reread_text (hvalues ("type", .text f.typeName) (by simp [entries]))
  have hrule : ∀ s ∈ f.rule, (Value.text s).reread = .text s :=
    fun s hs => reread_text (hvalues ("rule", .text s) (by simp [entries, Option.mem_def.1 hs]))
  have hentries : rereadNamed f.entries = (f.mapOptions Mapping.reread).entries := by
    unfold entries
    rw [rereadNamed_append, rereadNamed_append, rereadNamed_append, rereadNamed_optionsEntry]
    congr 2
    · congr 1
      · simp [rereadNamed, hname, htype, mapOptions]
      · cases hid : f.id <;> simp only [mapOptions, hid] <;> rfl
    · cases hf : f.rule with
      | none => simp [rereadNamed, mapOptions, hf]
      | some s => simp [rereadNamed, mapOptions, hf, hrule s hf]
  show (Value.record f.entries).reread = _
  rw [reread_record f.names_entries h, hentries]
  rfl

theorem Value.rereadItems_eq_map (items : List Value) : rereadItems items = items.map reread := by
  induction items with
  | nil => rfl
  | cons v rest ih => rw [rereadItems, ih, List.map_cons]

theorem TypeDecl.names_entries (t : TypeDecl) : (t.entries.map Prod.fst).Nodup := by
  unfold TypeDecl.entries Value.optionsEntry
  cases t.kind <;> cases t.options <;> simp

/-- The document of a type is read again as that of the type with its options read again. -/
theorem TypeDecl.reread_toValue {t : TypeDecl} (hcanonical : t.Canonical) (h : t.toValue.isBasic = true) :
    t.toValue.reread = (t.mapOptions Mapping.reread).toValue := by
  have hvalues : ∀ entry ∈ t.entries, entry.2.isBasic = true :=
    fun entry hentry => (isBasic_record_iff.1 h entry hentry).2
  have hentries : rereadNamed t.entries = (t.mapOptions Mapping.reread).entries := by
    unfold TypeDecl.entries
    rw [rereadNamed_append, rereadNamed_optionsEntry]
    congr 1
    cases hcanonical with
    | @enum name owner values options hnodup =>
      have hbasic : (Value.record (values.map fun value => (value.1, .int value.2))).isBasic = true :=
        hvalues ("values", _) (List.mem_append_left _ List.mem_cons_self)
      have hnames : ((values.map fun value => (value.1, Value.int value.2)).map Prod.fst).Nodup := by rwa [List.map_map]
      have hreread := reread_record hnames hbasic
      rw [rereadNamed, List.map_map] at hreread
      exact congrArg (fun v => [("values", v)]) hreread
    | @message name owner fields options hfields _ =>
      have hbasic : (Value.list none (fields.map Field.toValue)).isBasic = true :=
        hvalues ("fields", _) (List.mem_append_left _ List.mem_cons_self)
      rw [Value.isBasic, Value.all_list, List.all_map, List.all_eq_true] at hbasic
      have hitems : Value.rereadItems (fields.map Field.toValue) =
          (fields.map (Field.mapOptions Mapping.reread)).map Field.toValue := by
        rw [Value.rereadItems_eq_map, List.map_map, List.map_map]
        exact List.map_congr_left fun f hf => Field.reread_toValue (hbasic f hf)
      exact congrArg (fun items => [("fields", Value.list none items)]) hitems
  show (Value.record t.entries).reread = _
  rw [reread_record t.names_entries h, hentries]
  rfl

/-! ## Documents of namespaces -/

namespace Namespace

theorem names_sections (types nested : List (String × Value)) (options : Mapping) :
    ((sections types nested options).map Prod.fst).Nodup := by
  unfold sections Value.optionsEntry
  cases types <;> cases nested <;> cases options <;> simp

/-- What the document of a namespace holds has no characters beyond the basic plane if the document has none. -/
theorem isBasic_sections {types nested : List (String × Value)} {options : Mapping}
    (h : (Value.record (sections types nested options)).isBasic = true) :
    (Value.record types).isBasic = true ∧ (Value.record nested).isBasic = true := by
  have hvalues : ∀ entry ∈ sections types nested options, entry.2.isBasic = true :=
    fun entry hentry => (isBasic_record_iff.1 h entry hentry).2
  constructor
  · cases types with
    | nil => rfl
    | cons first rest =>
      exact hvalues ("types", _) (List.mem_append_left _ (List.mem_append_left _ List.mem_cons_self))
  · cases nested with
    | nil => rfl
    | cons first rest =>
      exact hvalues ("namespaces", _) (List.mem_append_left _ (List.mem_append_right _ List.mem_cons_self))

/-- The document of a namespace is read again part by part. -/
theorem reread_sections {types nested : List (String × Value)} {options : Mapping}
    (htypes : (types.map Prod.fst).Nodup) (hnested : (nested.map Prod.fst).Nodup)
    (h : (Value.record (sections types nested options)).isBasic = true) :
    (Value.record (sections types nested options)).reread =
      .record (sections (rereadNamed types) (rereadNamed nested) options.reread) := by
  obtain ⟨htypesBasic, hnestedBasic⟩ := isBasic_sections h
  have hpart : ∀ {name : String} {entries : List (String × Value)}, (entries.map Prod.fst).Nodup →
      (Value.record entries).isBasic = true →
      rereadNamed (if entries.isEmpty then [] else [(name, .record entries)]) =
        if (rereadNamed entries).isEmpty then [] else [(name, .record (rereadNamed entries))] := by
    intro name entries hnodup hbasic
    cases entries with
    | nil => rfl
    | cons first rest => exact congrArg (fun v => [(name, v)]) (reread_record hnodup hbasic)
  rw [reread_record (names_sections types nested options) h, sections, rereadNamed_append, rereadNamed_append,
    rereadNamed_optionsEntry, hpart htypes htypesBasic, hpart hnested hnestedBasic]
  rfl

end Namespace

namespace Node

theorem names_typeEntries (nodes : List Node) :
    (typeEntries nodes).map Prod.fst = (nodes.filterMap Node.type?).map TypeDecl.name := by
  rw [typeEntries, List.map_map]
  rfl

theorem names_spaceEntries (nodes : List Node) :
    (spaceEntries nodes).map Prod.fst = (nodes.filterMap Node.space?).map Namespace.name := by
  induction nodes with
  | nil => rfl
  | cons node rest ih =>
    cases node with
    | type t => exact ih
    | space name fullName options children => exact congrArg (name :: ·) ih

/-- Types are read again with their options read again. -/
theorem reread_typeEntries {nodes : List Node} (hcanonical : ∀ t ∈ nodes.filterMap Node.type?, t.Canonical)
    (hbasic : (Value.record (typeEntries nodes)).isBasic = true) :
    rereadNamed (typeEntries nodes) =
      typeEntries (mapAllTypes (TypeDecl.mapOptions Mapping.reread) (mapAllSpaces Mapping.reread nodes)) := by
  rw [typeEntries, typeEntries, filterMap_type?_mapAllTypes, filterMap_type?_mapAllSpaces, rereadNamed, List.map_map,
    List.map_map]
  refine List.map_congr_left fun t ht => ?_
  have htype := (isBasic_record_iff.1 hbasic (t.name, t.toValue) (List.mem_map_of_mem ht)).2
  exact congrArg (Prod.mk t.name) (TypeDecl.reread_toValue (hcanonical t ht) htype)

mutual

/-- The document of a namespace is read again as that of the namespace with all options read again. -/
theorem reread_spaceEntry? (node : Node) (hsound : ∀ ns ∈ node.spaces, ns.Sound)
    (hbasic : ∀ entry ∈ node.spaceEntry?, entry.2.isBasic = true) :
    Node.spaceEntry? ((node.mapSpaces Mapping.reread).mapTypes (TypeDecl.mapOptions Mapping.reread)) =
      node.spaceEntry?.map fun entry => (entry.1, entry.2.reread) := by
  match node with
  | .type t => rfl
  | .space name fullName options children =>
    let ns : Namespace := ⟨name, fullName, options, children⟩
    have hself : ns.Sound := hsound ns List.mem_cons_self
    let sections := Namespace.sections (typeEntries children) (spaceEntries children) options
    have hdocument : (Value.record sections).isBasic = true := hbasic _ rfl
    obtain ⟨htypesBasic, hnestedBasic⟩ := Namespace.isBasic_sections hdocument
    have htypes : ((typeEntries children).map Prod.fst).Nodup := by
      rw [names_typeEntries]
      exact (List.nodup_append.1 hself.names_nodup).1
    have hnested : ((spaceEntries children).map Prod.fst).Nodup := by
      rw [names_spaceEntries]
      exact (List.nodup_append.1 hself.names_nodup).2.1
    have hinner : ∀ inner ∈ allSpaces children, inner.Sound :=
      fun inner hinner => hsound inner (List.mem_cons_of_mem _ hinner)
    have ih := reread_spaceEntries children hinner hnestedBasic
    have hreread := Namespace.reread_sections htypes hnested hdocument
    rw [reread_typeEntries hself.canonical htypesBasic, ← ih] at hreread
    exact congrArg (fun v => some (name, v)) hreread.symm

theorem reread_spaceEntries (nodes : List Node) (hsound : ∀ ns ∈ allSpaces nodes, ns.Sound)
    (hbasic : (Value.record (spaceEntries nodes)).isBasic = true) :
    spaceEntries (mapAllTypes (TypeDecl.mapOptions Mapping.reread) (mapAllSpaces Mapping.reread nodes)) =
      rereadNamed (spaceEntries nodes) := by
  match nodes with
  | [] => rfl
  | node :: rest =>
    have hentries := isBasic_record_iff.1 hbasic
    have hnode := reread_spaceEntry? node (fun ns hns => hsound ns (List.mem_append_left _ hns)) fun entry hentry =>
      (hentries entry (List.mem_append_left _ (Option.mem_toList.2 hentry))).2
    have hrest := reread_spaceEntries rest (fun ns hns => hsound ns (List.mem_append_right _ hns))
      (isBasic_record_iff.2 fun entry hentry => hentries entry (List.mem_append_right _ hentry))
    rw [mapAllSpaces, mapAllTypes, spaceEntries, spaceEntries, hnode, hrest, rereadNamed_append]
    congr 1
    cases node.spaceEntry? <;> rfl

end

end Node

/-! ## Documents of schemas -/

namespace Schema

/-- **The document of a schema** is read again as that of the schema with all options read again. -/
theorem reread_toValue {schema : Schema} (h : schema.Merged) (hbasic : schema.toValue.isBasic = true) :
    schema.toValue.reread = (schema.mapOptions Mapping.reread).toValue := by
  have hentry := (isBasic_record_iff.1 hbasic _ List.mem_cons_self).2
  have hnames : ((Node.spaceEntries (schema.namespaces.map Namespace.toNode)).map Prod.fst).Nodup := by
    have hspaces : (schema.namespaces.map Namespace.toNode).filterMap Node.space? = schema.namespaces := by
      rw [List.filterMap_map]
      exact List.filterMap_some
    rw [Node.names_spaceEntries, hspaces]
    exact h.names_nodup
  have hnodes : (schema.mapOptions Mapping.reread).namespaces.map Namespace.toNode =
      Node.mapAllTypes (TypeDecl.mapOptions Mapping.reread)
        (Node.mapAllSpaces Mapping.reread (schema.namespaces.map Namespace.toNode)) := by
    rw [Node.mapAllTypes_eq_map, ← map_toNode_mapSpaces, mapOptions, mapTypes, List.map_map, List.map_map]
    rfl
  have hspaces := Node.reread_spaceEntries _ (fun ns hns => h.sound ns hns) hentry
  have hreread := reread_record hnames hentry
  rw [← hspaces, ← hnodes] at hreread
  rw [toValue, reread_record (by simp) hbasic]
  exact congrArg (fun v => Value.record [("namespaces", v)]) hreread

/-- The schema that a text declares by itself. `number` tells the document from others, and `source` names it. -/
def ofText (number : Nat) (source text : String) : Except LoadError Schema := do
  let document ← SchemaDocument.parse number source text
  ofDocuments [document]

end Schema

end SchemaClosure
