import SchemaClosure.Proofs.Schema.Reload

/-!
# A schema and its document

The document of a schema does not show where the types of a namespace stand among the namespaces that it
holds (`toValue_typesFirst`), and nothing else is lost in it. So writing a loaded schema, loading that and
writing it again gives the same document, with the same types in the same order and with the same references.

Main theorem `reload_toValue`.
-/

namespace SchemaClosure

namespace Node

theorem spaceEntries_append (a b : List Node) : spaceEntries (a ++ b) = spaceEntries a ++ spaceEntries b := by
  induction a with
  | nil => rfl
  | cons node rest ih => simp [spaceEntries, ih]

/-- Only the namespaces are written as namespaces. -/
theorem spaceEntries_sorted (nodes : List Node) : spaceEntries (sorted nodes) = spaceEntries nodes := by
  have htypes : ∀ types : List TypeDecl, spaceEntries (types.map Node.type) = [] := by
    intro types
    induction types with
    | nil => rfl
    | cons t rest ih => exact ih
  have hspaces : spaceEntries ((nodes.filterMap Node.space?).map Namespace.toNode) =
      spaceEntries nodes := by
    induction nodes with
    | nil => rfl
    | cons node rest ih =>
      cases node with
      | type t => exact ih
      | space name fullName options children =>
        simp [Node.space?, Namespace.toNode, spaceEntries, ih]
  rw [sorted, spaceEntries_append, htypes, List.nil_append, hspaces]

theorem typeEntries_sorted_allTypesFirst (nodes : List Node) :
    typeEntries (sorted (allTypesFirst nodes)) = typeEntries nodes := by
  rw [typeEntries, filterMap_type?_sorted, filterMap_type?_allTypesFirst, typeEntries]

mutual

theorem spaceEntry?_typesFirst (node : Node) : node.typesFirst.spaceEntry? = node.spaceEntry? := by
  match node with
  | .type t => rfl
  | .space name fullName options children =>
    have ih := spaceEntries_allTypesFirst children
    simp only [Node.typesFirst, spaceEntry?, spaceValue, typeEntries_sorted_allTypesFirst,
      spaceEntries_sorted, ih]

theorem spaceEntries_allTypesFirst (nodes : List Node) :
    spaceEntries (allTypesFirst nodes) = spaceEntries nodes := by
  match nodes with
  | [] => rfl
  | node :: rest =>
    rw [allTypesFirst, spaceEntries, spaceEntries, spaceEntry?_typesFirst node,
      spaceEntries_allTypesFirst rest]

end

end Node

namespace Schema

/-- The order of types and namespaces is not written. -/
theorem toValue_typesFirst (schema : Schema) : schema.typesFirst.toValue = schema.toValue := by
  have hmap : schema.typesFirst.namespaces.map Namespace.toNode =
      Node.allTypesFirst (schema.namespaces.map Namespace.toNode) := by
    rw [Node.allTypesFirst_eq_map, typesFirst, List.map_map, List.map_map]
    rfl
  rw [toValue, toValue, hmap, Node.spaceEntries_allTypesFirst]

/-- **Writing and loading** a schema that documents declare succeeds. The schema that comes back is written
as before and has the same types with the same references in the same order; it differs only in that the
types of a namespace come before the namespaces that it holds. -/
theorem reload_toValue {documents : List SchemaDocument} {schema : Schema}
    (h : ofDocuments documents = .ok schema) (source : String) :
    ∃ reloaded, schema.reload source = .ok reloaded ∧ reloaded.toValue = schema.toValue ∧
      reloaded.types = schema.types ∧ reloaded = schema.typesFirst :=
  ⟨schema.typesFirst, (loaded_of_ofDocuments h).reload source, toValue_typesFirst schema,
    types_typesFirst schema, rfl⟩

/-! ### A namespace before the types around it -/

/-- A nested namespace and, in the document after it, types around it: an enum without values and a message
that refers to another namespace. One name has a dot, one is empty, and some keys are not texts. -/
def nestedFirst : List SchemaDocument :=
  [⟨"inner", [(.text "namespaces", .record [("a.b", .record [
      ("options", .mapping none [(.int 1, .text "one")]),
      ("namespaces", .record [("", .record [("types", .record [("None", .null)])])])])])]⟩,
    ⟨"outer", [(.text "namespaces", .record [("a.b", .record [
      ("options", .mapping none [(.bool true, .text "yes")]),
      ("types", .record [
        ("State", .record [("values", .mapping none []), ("options", .mapping none [(.null, .null)])]),
        ("Order", .record [("fields", .list none [
          .record [("name", .text " number "), ("type", .text "int32"), ("id", .int (-1)),
            ("rule", .text "repeated")],
          .record [("name", .text "actor"), ("type", .text "c.Actor")]])])])]),
      ("c", .record [("types", .record [("Actor", .null)])])])]⟩]

/-- The schema that they declare. -/
def nestedFirstSchema : Schema :=
  ⟨[⟨"a.b", "a.b", [(.int 1, .text "yes")], [
    .space "" "a.b." [] [.type ⟨"None", "a.b.", .message, [], [], []⟩],
    .type ⟨"State", "a.b", .enum, [], [], [(.null, .null)]⟩,
    .type ⟨"Order", "a.b", .message,
      [⟨"number", "int32", some (-1), some "repeated", none, []⟩,
        ⟨"actor", "c.Actor", none, none, some ⟨"c", "Actor"⟩, []⟩], [], []⟩]⟩,
    ⟨"c", "c", [], [.type ⟨"Actor", "c", .message, [], [], []⟩]⟩]⟩

theorem ofDocuments_nestedFirst : ofDocuments nestedFirst = .ok nestedFirstSchema := by
  refine ofDocuments_eq_ok_iff.2 ⟨_, rfl, rfl, ?_⟩
  rw [types_eq_allTypesWithin]
  decide

theorem reload_toValue_nestedFirst :
    ofDocuments nestedFirst = .ok nestedFirstSchema ∧
    ∃ reloaded, nestedFirstSchema.reload "again" = .ok reloaded ∧
      reloaded.toValue = nestedFirstSchema.toValue ∧ reloaded.types = nestedFirstSchema.types ∧
      reloaded.namespaces.map (fun ns => ns.children.map Node.name) = [["State", "Order", ""], ["Actor"]] := by
  obtain ⟨reloaded, hreload, hvalue, htypes, rfl⟩ := reload_toValue ofDocuments_nestedFirst "again"
  exact ⟨ofDocuments_nestedFirst, _, hreload, hvalue, htypes, rfl⟩

end Schema

end SchemaClosure
