import SchemaClosure.Proofs.Schema.Loading

/-!
# Full names as addresses

A full name is made by putting dots between names and taken apart at its dots when it is looked up. The two
are inverse as long as no name of a namespace holds a dot, and the loader does not refuse one that does. A
namespace with a dot in its name is never found under its full name (`not_mem_dot_of_space?`): the look-up
goes down one path of names without dots, and another namespace may stand there.

Main theorem `addressed_iff_dotFree`: all that is loaded is found at its address, and addresses are distinct,
iff no name of a namespace holds a dot. `not_addressed_dotted` is a small schema with such a name.
-/

namespace SchemaClosure

namespace Schema

variable {schema : Schema}

/-- Full names and addresses lead to what has them, and no two namespaces or types share one. -/
structure Addressed (schema : Schema) : Prop where
  space : ∀ ns ∈ schema.spaces, schema.space? ns.fullName = some ns
  type : ∀ t ∈ schema.types, schema.type? t.address = some t
  fullNames_nodup : (schema.spaces.map Namespace.fullName).Nodup
  addresses_nodup : (schema.types.map TypeDecl.address).Nodup

/-- The path of a namespace ends in its name. -/
theorem At.name_mem {path : List String} {ns : Namespace} (h : schema.At path ns) : ns.name ∈ path := by
  cases h <;> simp

/-- What is found under a full name has no dot in its name, as it stands at the pieces of the full name. -/
theorem not_mem_dot_of_space? {fullName : String} {ns : Namespace}
    (h : schema.space? fullName = some ns) : '.' ∉ ns.name.toList := by
  have hat : schema.At (Text.pieces '.' fullName) ns := at_of_spaceAt? h
  exact Text.not_mem_dot_of_mem_pieces hat.name_mem

theorem Merged.addressed (h : schema.Merged) (hdot : schema.DotFree) : schema.Addressed := by
  have wf : schema.WellFormed := ⟨h.toConsistent, hdot⟩
  refine ⟨fun ns hns => ?_, fun t ht => ?_, ?_, ?_⟩
  · exact (space?_eq_some_iff wf).2 ⟨hns, rfl⟩
  · exact (type?_eq_some_iff_address wf h.owned).2 ⟨ht, rfl⟩
  · exact List.pairwise_map.2 (fullNames_distinct wf)
  · exact Schema.addresses_nodup wf h.owned

/-- **When full names are addresses**: whatever documents declare is found at its address, and no two of
their namespaces or types share one, iff no name of a namespace holds a dot. -/
theorem addressed_iff_dotFree {documents : List SchemaDocument} (h : ofDocuments documents = .ok schema) :
    schema.Addressed ↔ schema.DotFree := by
  constructor
  · intro haddressed ns hns
    exact not_mem_dot_of_space? (haddressed.space ns hns)
  · exact (loaded_of_ofDocuments h).toMerged.addressed

/-! ### One package, declared in two namespaces and in one -/

/-- A message in a namespace `protobuf` of a namespace `google`. -/
def nestedDocument : SchemaDocument where
  source := "nested"
  content := [(.text "namespaces", .record [("google", .record [
    ("namespaces", .record [("protobuf", .record [("types", .record [("Any", .record [])])])])])])]

/-- The same message in one namespace `google.protobuf`. -/
def dottedDocument : SchemaDocument where
  source := "dotted"
  content := [(.text "namespaces", .record [("google.protobuf", .record [
    ("types", .record [("Any", .record [])])])])]

/-- The namespace that holds the message, under either name. -/
def packageOfAny (name : String) : Namespace :=
  ⟨name, "google.protobuf", [], [.type ⟨"Any", "google.protobuf", .message, [], [], []⟩]⟩

/-- The schema with two namespaces. -/
def nested : Schema := ⟨[⟨"google", "google", [], [(packageOfAny "protobuf").toNode]⟩]⟩

/-- The schema with one namespace. -/
def dotted : Schema := ⟨[packageOfAny "google.protobuf"]⟩

theorem ofDocuments_nested : ofDocuments [nestedDocument] = .ok nested := by
  refine ofDocuments_eq_ok_iff.2 ⟨_, rfl, rfl, ?_⟩
  rw [types_eq_allTypesWithin]
  decide

theorem ofDocuments_dotted : ofDocuments [dottedDocument] = .ok dotted := by
  refine ofDocuments_eq_ok_iff.2 ⟨_, rfl, rfl, ?_⟩
  rw [types_eq_allTypesWithin]
  decide

theorem addressed_nested :
    ofDocuments [nestedDocument] = .ok nested ∧ nested.DotFree ∧ nested.Addressed :=
  ⟨ofDocuments_nested, by decide, (addressed_iff_dotFree ofDocuments_nested).2 (by decide)⟩

/-- The full name of the namespace with the dot leads nowhere, and so does the address of its type. -/
theorem not_addressed_dotted :
    ofDocuments [dottedDocument] = .ok dotted ∧
    packageOfAny "google.protobuf" ∈ dotted.spaces ∧ dotted.space? "google.protobuf" = none ∧
    dotted.type? ⟨"google.protobuf", "Any"⟩ = none ∧ ¬ dotted.Addressed := by
  have hmem : packageOfAny "google.protobuf" ∈ dotted.spaces :=
    mem_spaces_of_mem_namespaces List.mem_cons_self
  have hnone : dotted.space? "google.protobuf" = none := by decide
  refine ⟨ofDocuments_dotted, hmem, hnone, by decide, fun haddressed => ?_⟩
  have hfound := haddressed.space _ hmem
  exact absurd (hnone.symm.trans hfound) (by simp)

end Schema

end SchemaClosure
