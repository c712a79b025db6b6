import SchemaClosure.Proofs.Reach.Bounded

/-!
# The closure of requests

`Schema.Closure` is what requests lead to: the names that they list, and whatever the fields of a message
among them refer to, as far as its namespace exists. It is said with the places of the tree alone, without
the look-ups, the stack and the marks of the walk.

Main theorem `filterAll_closure`: filtering succeeds exactly when nothing in the closure is missing, and
then it finds the closure.
-/

namespace SchemaClosure

namespace Schema

variable {schema : Schema} {requests : List Request}

/-- What requests lead to. Enums and namespaces lead to nothing. -/
inductive Closure (schema : Schema) (requests : List Request) : TypeAddress → Prop
  | entry {request : Request} {ns : Namespace} {name : String} :
    request ∈ requests → ns ∈ schema.namespaces → ns.name = request.owner → name ∈ request.typeNames →
    Closure schema requests ⟨request.owner, name⟩
  | reference {a b : TypeAddress} {t : TypeDecl} {f : Field} {ns : Namespace} :
    Closure schema requests a → schema.Holds a (.type t) → t.kind = .message → f ∈ t.fields →
    f.resolved = some b → schema.Stands b.owner ns → Closure schema requests b

/-- The namespace of the address exists and has no child of the name. -/
def Misses (schema : Schema) (address : TypeAddress) : Prop :=
  ∃ ns, schema.Stands address.owner ns ∧ ∀ node ∈ ns.children, node.name ≠ address.name

theorem mem_references {t : TypeDecl} {b : TypeAddress} :
    b ∈ t.references ↔ ∃ f ∈ t.fields, f.resolved = some b := by
  simp [TypeDecl.references]

/-- A frame is where its address says. -/
theorem stands_home (wf : schema.WellFormed) (f : Frame schema) :
    schema.Stands f.address.owner f.home :=
  (stands_iff wf.toConsistent).2 ⟨f.home_mem, rfl⟩

/-- The frames of a request are at its names in its namespace. -/
theorem exists_entry_iff (wf : schema.WellFormed) {request : Request} {a : TypeAddress} :
    (∃ f ∈ schema.entries request, f.address = a) ↔
      a.owner = request.owner ∧ a.name ∈ request.typeNames ∧ ∃ ns ∈ schema.namespaces, ns.name = request.owner := by
  constructor
  · rintro ⟨f, hf, rfl⟩
    obtain ⟨htop, hname⟩ := mem_entries.1 hf
    obtain ⟨hmem, howner⟩ := (top?_eq_some_iff wf.toConsistent).1 htop
    exact ⟨(wf.top_fullName _ hmem).trans howner, hname, f.home, hmem, howner⟩
  · rintro ⟨howner, hname, ns, hns, hnsName⟩
    refine ⟨⟨ns, mem_spaces_of_mem_namespaces hns, a.name⟩, ?_, ?_⟩
    · exact mem_entries.2 ⟨(top?_eq_some_iff wf.toConsistent).2 ⟨hns, hnsName⟩, hname⟩
    · rw [Frame.address, wf.top_fullName _ hns, hnsName, ← howner]

/-- A message at the first address refers to the second one, and the namespace of that one exists. -/
def Refers (schema : Schema) (a b : TypeAddress) : Prop :=
  ∃ t f ns, schema.Holds a (.type t) ∧ t.kind = .message ∧ f ∈ t.fields ∧ f.resolved = some b ∧
    schema.Stands b.owner ns

/-- A frame leads to the frames at what it refers to. -/
theorem refers_iff_next (wf : schema.WellFormed) {f : Frame schema} {b : TypeAddress} :
    schema.Refers f.address b ↔ ∃ g ∈ f.next, g.address = b := by
  constructor
  · rintro ⟨t, field, ns, hholds, hkind, hfield, hresolved, hns⟩
    obtain ⟨hmem, hname⟩ := (stands_iff wf.toConsistent).1 hns
    have hnode := (holds_iff wf.toConsistent f.home_mem wf.dotFree).1 hholds
    refine ⟨⟨ns, hmem, b.name⟩, Frame.mem_next.2 ⟨t, ?_, b, mem_references.2 ⟨field, hfield, hresolved⟩, ?_⟩, ?_⟩
    · exact Frame.message?_eq_some_iff.2 ⟨hnode, hkind⟩
    · exact Frame.of?_eq_some_iff.2 ⟨(space?_eq_some_iff wf).2 ⟨hmem, hname⟩, rfl⟩
    · rw [Frame.address, hname]
  · rintro ⟨g, hg, rfl⟩
    obtain ⟨t, ht, b, hb, hof⟩ := Frame.mem_next.1 hg
    obtain ⟨hspace, hname⟩ := Frame.of?_eq_some_iff.1 hof
    obtain ⟨hnode, hkind⟩ := Frame.message?_eq_some_iff.1 ht
    obtain ⟨field, hfield, hresolved⟩ := mem_references.1 hb
    have haddress : b = g.address := by
      rw [Frame.address, fullName_of_space? wf.toConsistent hspace, ← hname]
    exact ⟨t, field, g.home, (holds_iff wf.toConsistent f.home_mem wf.dotFree).2 hnode, hkind, hfield,
      haddress ▸ hresolved, stands_home wf g⟩

theorem closure_of_mem_entries (wf : schema.WellFormed) {f : Frame schema}
    (hf : f ∈ requests.flatMap schema.entries) : schema.Closure requests f.address := by
  obtain ⟨request, hrequest, hf⟩ := List.mem_flatMap.1 hf
  obtain ⟨howner, hname, ns, hns, hnsName⟩ := (exists_entry_iff wf).1 ⟨f, hf, rfl⟩
  have haddress : f.address = ⟨request.owner, f.name⟩ := by
    rw [← howner]
    rfl
  rw [haddress]
  exact .entry hrequest hns hnsName hname

theorem closure_of_mem_next (wf : schema.WellFormed) {f g : Frame schema}
    (hf : schema.Closure requests f.address) (hg : g ∈ f.next) : schema.Closure requests g.address := by
  obtain ⟨t, field, ns, hholds, hkind, hfield, hresolved, hns⟩ := (refers_iff_next wf).2 ⟨g, hg, rfl⟩
  exact .reference hf hholds hkind hfield hresolved hns

/-- When a walk from the requests misses nothing, it settles the whole closure. -/
theorem Closure.settled (wf : schema.WellFormed) {s : WalkState}
    (hwalk : schema.Walks (requests.flatMap schema.entries) .start s none) {a : TypeAddress}
    (h : schema.Closure requests a) : ∃ f : Frame schema, f.address = a ∧ s.Settled f := by
  obtain ⟨hcov, hstack⟩ := hwalk.covered wf (WalkState.covered_start _)
  induction h with
  | @entry request ns name hrequest hns howner hname =>
    obtain ⟨f, hf, haddress⟩ :=
      (exists_entry_iff wf (a := ⟨request.owner, name⟩)).2 ⟨rfl, hname, ns, hns, howner⟩
    exact ⟨f, haddress, hstack f (List.mem_flatMap.2 ⟨request, hrequest, hf⟩)⟩
  | @reference a b t field ns ha hholds hkind hfield hresolved hns ih =>
    obtain ⟨f, rfl, hf⟩ := ih
    obtain ⟨g, hg, rfl⟩ := (refers_iff_next wf).1 ⟨t, field, ns, hholds, hkind, hfield, hresolved, hns⟩
    have hfollowed := hf.followed (Frame.message?_isSome_of_mem_next hg)
    exact ⟨g, rfl, (hcov f hfollowed g hg).resolve_right (by simp)⟩

/-- A walk from the requests that misses nothing records exactly the closure. -/
theorem records_iff_closure (wf : schema.WellFormed) {s : WalkState}
    (hwalk : schema.Walks (requests.flatMap schema.entries) .start s none) {a : TypeAddress} :
    s.Records a ↔ schema.Closure requests a := by
  constructor
  · intro ha
    obtain ⟨hsound, -⟩ := hwalk.sound (P := fun f => schema.Closure requests f.address)
      (fun f hf g hg => closure_of_mem_next wf hf hg) (fun f hf => closure_of_mem_entries wf hf)
    rcases hsound a ha with ha | ⟨f, hf, rfl⟩
    · cases ha
    · exact hf
  · intro h
    obtain ⟨f, rfl, hf⟩ := h.settled wf hwalk
    exact hf.records

/-- What a filter finds is the closure. -/
theorem mem_reachable_iff (wf : schema.WellFormed) {r : ReachableNames} {pruned : Schema}
    (h : schema.filterAll requests = .ok (r, pruned)) {a : TypeAddress} :
    a.name ∈ r.names a.owner ↔ schema.Closure requests a := by
  obtain ⟨s, hwalk, rfl, -⟩ := filterAll_eq_ok_iff.1 h
  exact records_iff_closure wf hwalk

theorem filled_reachable {r : ReachableNames} {pruned : Schema}
    (h : schema.filterAll requests = .ok (r, pruned)) : r.Filled := by
  obtain ⟨s, hwalk, rfl, -⟩ := filterAll_eq_ok_iff.1 h
  exact hwalk.filled ReachableNames.filled_nil

theorem not_misses_of_closure (wf : schema.WellFormed) {r : ReachableNames} {pruned : Schema}
    (h : schema.filterAll requests = .ok (r, pruned)) {a : TypeAddress}
    (ha : schema.Closure requests a) : ¬ schema.Misses a := by
  obtain ⟨s, hwalk, -, -⟩ := filterAll_eq_ok_iff.1 h
  obtain ⟨f, rfl, hf⟩ := ha.settled wf hwalk
  rintro ⟨ns, hns, hmiss⟩
  obtain ⟨hmem, hname⟩ := (stands_iff wf.toConsistent).1 hns
  obtain rfl : ns = f.home := eq_of_fullName_eq wf hmem f.home_mem hname
  have hnone : f.node? = none := Namespace.child?_eq_none_iff.2 hmiss
  simpa [hnone] using hf.node

theorem closure_misses_of_error (wf : schema.WellFormed) {m : MissingType}
    (h : schema.filterAll requests = .error m) :
    schema.Closure requests ⟨m.owner, m.name⟩ ∧ schema.Misses ⟨m.owner, m.name⟩ := by
  obtain ⟨s, hwalk⟩ := filterAll_eq_error_iff.1 h
  obtain ⟨-, hmiss⟩ := hwalk.sound (P := fun f => schema.Closure requests f.address)
    (fun f hf g hg => closure_of_mem_next wf hf hg) (fun f hf => closure_of_mem_entries wf hf)
  obtain ⟨f, hf, haddress, hnone⟩ := hmiss m rfl
  rw [← haddress]
  exact ⟨hf, f.home, stands_home wf f, Namespace.child?_eq_none_iff.1 hnone⟩

/-- **Closure exactness**: filtering succeeds iff no address of the closure misses a child of an existing
namespace, and then the reachable names are the closure, with one entry for each namespace and none of
them empty. -/
theorem filterAll_closure (wf : schema.WellFormed) (requests : List Request) :
    ((∃ r pruned, schema.filterAll requests = .ok (r, pruned)) ↔
      ∀ a, schema.Closure requests a → ¬ schema.Misses a) ∧
    ∀ r pruned, schema.filterAll requests = .ok (r, pruned) →
      (∀ owner name, name ∈ r.names owner ↔ schema.Closure requests ⟨owner, name⟩) ∧
      r.owners.Nodup ∧ ∀ owner names, (owner, names) ∈ r → names ≠ [] := by
  refine ⟨⟨?_, ?_⟩, ?_⟩
  · rintro ⟨r, pruned, h⟩ a ha
    exact not_misses_of_closure wf h ha
  · intro hmiss
    cases h : schema.filterAll requests with
    | ok result => exact ⟨_, _, rfl⟩
    | error m =>
      obtain ⟨hclosure, hm⟩ := closure_misses_of_error wf h
      exact absurd hm (hmiss _ hclosure)
  · intro r pruned h
    obtain ⟨hnodup, hne⟩ := filled_reachable h
    refine ⟨fun owner name => ?_, hnodup, fun owner names hmem => hne _ hmem⟩
    exact mem_reachable_iff (a := ⟨owner, name⟩) wf h

/-! ### A schema with every kind of reference

`Order` and `Line` refer to each other, `Order` refers to a type further down, to one that is shared, and
into a namespace that is not there. `archive` is a namespace that is requested by its name. -/

/-- A field of a declared type and what it refers to. -/
def sampleField (name typeName : String) (resolved : Option TypeAddress) : Field :=
  ⟨name, typeName, none, none, resolved, []⟩

/-- A message in a namespace. -/
def sampleMessage (owner name : String) (fields : List Field) : Node :=
  .type ⟨name, owner, .message, fields, [], []⟩

/-- Orders with their lines, an inner namespace of entries and an archive. -/
def sample : Schema :=
  ⟨[⟨"shop", "shop", [], [
    sampleMessage "shop" "Order" [
      sampleField "lines" "Line" (some ⟨"shop", "Line"⟩),
      sampleField "entry" "admin.Entry" (some ⟨"shop.admin", "Entry"⟩),
      sampleField "state" "State" (some ⟨"shop", "State"⟩),
      sampleField "gone" "gone.Type" (some ⟨"gone", "Type"⟩),
      sampleField "id" "string" none],
    sampleMessage "shop" "Line" [
      sampleField "order" "Order" (some ⟨"shop", "Order"⟩),
      sampleField "state" "State" (some ⟨"shop", "State"⟩)],
    .type ⟨"State", "shop", .enum, [], [("NEW", 0), ("DONE", 1)], []⟩,
    sampleMessage "shop" "Unused" [],
    .space "admin" "shop.admin" [] [
      sampleMessage "shop.admin" "Entry" [],
      sampleMessage "shop.admin" "Unused" []],
    .space "archive" "shop.archive" [] [sampleMessage "shop.archive" "Box" []]]⟩]⟩

/-- A type and a namespace are requested, and something from a namespace that is not there. -/
def sampleRequests : List Request := [⟨"shop", ["Order", "archive"]⟩, ⟨"gone", ["Type"]⟩]

theorem filterAll_closure_sample :
    sample.WellFormed ∧
    (∃ pruned, sample.filterAll sampleRequests =
      .ok ([("shop", ["Order", "Line", "State", "archive"]), ("shop.admin", ["Entry"])], pruned)) ∧
    sample.Closure sampleRequests ⟨"shop.admin", "Entry"⟩ ∧
    ¬ sample.Closure sampleRequests ⟨"gone", "Type"⟩ := by
  have wf : sample.WellFormed := by decide
  have h : sample.filterAll sampleRequests = .ok (_, _) := filterAll_of_filterUpTo (n := 9) rfl
  obtain ⟨hclosure, -, -⟩ := (filterAll_closure wf sampleRequests).2 _ _ h
  refine ⟨wf, ⟨_, h⟩, (hclosure _ _).1 (by decide), fun hc => ?_⟩
  exact absurd ((hclosure _ _).2 hc) (by decide)

end Schema

end SchemaClosure
