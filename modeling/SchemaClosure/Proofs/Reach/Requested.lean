import SchemaClosure.Proofs.Reach.Dangling
import SchemaClosure.Proofs.Schema.RoundTrip

/-!
# What a loaded schema can miss

The references of a loaded schema lead to types, by whatever names its namespaces have: they were looked up
when the schema was loaded, and in the same way. So a walk passes no reference over and misses none of their
targets (`Loaded.node?_of_mem_next`). What it misses is a name on its first stack, that is in a request, and
the first such one, as all that stands before it on the stack is followed to its end (`walk_missing`).

Main theorem `filterAll_lacks`.
-/

namespace SchemaClosure

namespace Schema

variable {schema : Schema} {requests : List Request} {request : Request}

/-- A request asks an existing top-level namespace for a name that this does not have. -/
def Lacks (schema : Schema) (request : Request) (m : MissingType) : Prop :=
  m.name ∈ request.typeNames ∧ ∃ ns ∈ schema.namespaces, ns.name = request.owner ∧
    ns.fullName = m.owner ∧ ∀ node ∈ ns.children, node.name ≠ m.name

/-! ## References -/

/-- The type that a frame follows is one of the schema. -/
theorem mem_types_of_message? {f : Frame schema} {t : TypeDecl} (h : f.message? = some t) :
    t ∈ schema.types := by
  obtain ⟨hnode, -⟩ := Frame.message?_eq_some_iff.1 h
  exact mem_types.2 ⟨f.home, f.home_mem, Namespace.mem_types.2 (List.mem_of_find?_eq_some hnode)⟩

/-- A reference of a loaded schema has a frame, and a type stands there. -/
theorem Loaded.of?_of_mem_references (hl : schema.Loaded) {t : TypeDecl} (ht : t ∈ schema.types)
    {b : TypeAddress} (hb : b ∈ t.references) :
    ∃ f, Frame.of? schema b = some f ∧ ∃ u, f.home.child? f.name = some (.type u) := by
  obtain ⟨field, hfield, hresolved⟩ := mem_references.1 hb
  obtain ⟨u, hu⟩ := Option.isSome_iff_exists.1 (hl.type?_of_resolved ht hfield hresolved)
  simp only [type?, Option.bind_eq_some_iff] at hu
  obtain ⟨node, ⟨ns, hns, hnode⟩, htype⟩ := hu
  obtain rfl := Node.type?_eq_some_iff.1 htype
  exact ⟨_, Frame.of?_of_space? hns, u, hnode⟩

/-- No reference of a loaded schema is passed over, and each leads to a type. -/
theorem Loaded.references_lead (hl : schema.Loaded) {t : TypeDecl} (ht : t ∈ schema.types) :
    List.Forall₂ (fun b (f : Frame schema) => schema.space? b.owner = some f.home ∧ b.name = f.name ∧
      ∃ u, f.home.child? f.name = some (.type u)) t.references (t.references.filterMap (Frame.of? schema)) := by
  have hlead : ∀ b ∈ t.references, ∃ f, Frame.of? schema b = some f ∧
      ∃ u, f.home.child? f.name = some (.type u) := fun b hb => hl.of?_of_mem_references ht hb
  generalize t.references = references at hlead
  induction references with
  | nil => exact .nil
  | cons b rest ih =>
    obtain ⟨f, hf, hchild⟩ := hlead b List.mem_cons_self
    rw [List.filterMap_cons_some hf]
    obtain ⟨hspace, hname⟩ := Frame.of?_eq_some_iff.1 hf
    exact .cons ⟨hspace, hname, hchild⟩ (ih fun b hb => hlead b (List.mem_cons_of_mem _ hb))

/-- Where fields lead to, there is a node. -/
theorem Loaded.node?_of_mem_next (hl : schema.Loaded) {f g : Frame schema} (hg : g ∈ f.next) :
    g.node?.isSome := by
  obtain ⟨t, ht, b, hb, hof⟩ := Frame.mem_next.1 hg
  obtain ⟨g', hg', u, hu⟩ := hl.of?_of_mem_references (mem_types_of_message? ht) hb
  obtain rfl := Option.some.inj (hg'.symm.trans hof)
  exact Frame.node?_isSome_of_child? hu

/-! ## The first missing name -/

/-- Where fields lead to nodes only, a walk misses the first name on its stack that has none. -/
theorem walk_missing (hnext : ∀ f : Frame schema, ∀ g ∈ f.next, g.node?.isSome)
    (stack : List (Frame schema)) (s : WalkState) :
    (schema.walk stack s).2 =
      (stack.find? (·.node?.isNone)).map fun f => ⟨f.home.fullName, f.name⟩ := by
  -- a walk from frames that have nodes meets no others
  have hnone : ∀ stack : List (Frame schema), (∀ f ∈ stack, f.node?.isSome) →
      ∀ s, (schema.walk stack s).2 = none := by
    intro stack hstack s
    obtain ⟨-, hmiss⟩ := (walks_walk stack s).sound (P := fun f => f.node?.isSome)
      (fun f _ g hg => hnext f g hg) hstack
    cases hout : (schema.walk stack s).2 with
    | none => rfl
    | some m =>
      obtain ⟨f, hsome, -, hf⟩ := hmiss m hout
      simp [hf] at hsome
  cases hfirst : stack.find? (·.node?.isNone) with
  | none =>
    refine hnone stack (fun f hf => ?_) s
    simpa [Option.ne_none_iff_isSome] using List.find?_eq_none.1 hfirst f hf
  | some f =>
    obtain ⟨hf, before, after, rfl, hbefore⟩ := List.find?_eq_some_iff_append.1 hfirst
    have hf : f.node? = none := by simpa using hf
    have hstart : ∀ g ∈ before, g.node?.isSome := fun g hg => by simpa using hbefore g hg
    have hwalk := hnone before hstart s
    rw [walk_append]
    rcases hend : schema.walk before s with ⟨s', out⟩
    obtain rfl : out = none := by simpa [hend] using hwalk
    exact congrArg Prod.snd (walks_iff.1 (.missing hf))

section

variable (hc : schema.Consistent)
include hc

/-- A request lacks what some frame of it has no node for. -/
theorem lacks_iff {m : MissingType} : schema.Lacks request m ↔
    ∃ f ∈ schema.entries request, f.node? = none ∧ m = ⟨f.home.fullName, f.name⟩ := by
  constructor
  · rintro ⟨hname, ns, hns, howner, hfull, hnot⟩
    refine ⟨⟨ns, mem_spaces_of_mem_namespaces hns, m.name⟩, ?_, Namespace.child?_eq_none_iff.2 hnot, ?_⟩
    · exact mem_entries.2 ⟨(top?_eq_some_iff hc).2 ⟨hns, howner⟩, hname⟩
    · rw [hfull]
  · rintro ⟨f, hf, hnone, rfl⟩
    obtain ⟨htop, hname⟩ := mem_entries.1 hf
    obtain ⟨hmem, howner⟩ := (top?_eq_some_iff hc).1 htop
    exact ⟨hname, f.home, hmem, howner, rfl, Namespace.child?_eq_none_iff.1 hnone⟩

/-- The frames of a request stand in the order of its names. -/
theorem lacks_first_iff {m : MissingType} :
    ((schema.entries request).find? (·.node?.isNone)).map (fun f => ⟨f.home.fullName, f.name⟩) = some m ↔
      schema.Lacks request m ∧ ∃ names more, request.typeNames = names ++ m.name :: more ∧
        ∀ other, other.name ∈ names → ¬ schema.Lacks request other := by
  constructor
  · intro h
    obtain ⟨f, hfirst, rfl⟩ := Option.map_eq_some_iff.1 h
    obtain ⟨hf, before, after, hsplit, hbefore⟩ := List.find?_eq_some_iff_append.1 hfirst
    have hmem : f ∈ schema.entries request := hsplit ▸ List.mem_append_right _ List.mem_cons_self
    obtain ⟨htop, -⟩ := mem_entries.1 hmem
    have hnames : request.typeNames = before.map Frame.name ++ f.name :: after.map Frame.name := by
      have hall : (schema.entries request).map Frame.name = request.typeNames := by
        simp [entries_of_top? htop, Function.comp_def]
      rw [← hall, hsplit, List.map_append, List.map_cons]
    refine ⟨(lacks_iff hc).2 ⟨f, hmem, by simpa using hf, rfl⟩, _, _, hnames, fun other hother hlacks => ?_⟩
    obtain ⟨g, hg, hname⟩ := List.mem_map.1 hother
    obtain ⟨g', hg', hnone, rfl⟩ := (lacks_iff hc).1 hlacks
    -- both frames are in the namespace of the request and have one name
    have hsame : g.node? = g'.node? := by
      obtain ⟨htop', -⟩ := mem_entries.1 (hsplit ▸ List.mem_append_left _ hg)
      obtain ⟨htop'', -⟩ := mem_entries.1 hg'
      rw [Frame.node?, Frame.node?, Option.some.inj (htop'.symm.trans htop''), hname]
    simpa [hsame, hnone] using hbefore g hg
  · rintro ⟨hlacks, names, more, hnames, hbefore⟩
    obtain ⟨f, hf, hnone, rfl⟩ := (lacks_iff hc).1 hlacks
    obtain ⟨htop, -⟩ := mem_entries.1 hf
    refine Option.map_eq_some_iff.2 ⟨f, ?_, rfl⟩
    rw [entries_of_top? htop, hnames, List.map_append, List.map_cons, List.find?_append]
    have hnot : (names.map fun name => (⟨f.home, mem_spaces_of_top? htop, name⟩ : Frame schema)).find?
        (·.node?.isNone) = none := by
      refine List.find?_eq_none.2 fun g hg => ?_
      obtain ⟨name, hname, rfl⟩ := List.mem_map.1 hg
      intro hmissing
      refine hbefore ⟨f.home.fullName, name⟩ hname ((lacks_iff hc).2 ⟨_, ?_, by simpa using hmissing, rfl⟩)
      exact mem_entries.2 ⟨htop, by simp [hnames, hname]⟩
    rw [hnot, Option.none_or, List.find?_cons_of_pos]
    simp [hnone]

/-- A request whose frames all have nodes lacks nothing. -/
theorem lacks_none_iff : (schema.entries request).find? (·.node?.isNone) = none ↔
    ∀ m, ¬ schema.Lacks request m := by
  simp only [List.find?_eq_none, lacks_iff hc, not_exists, not_and, Option.isNone_iff_eq_none]
  exact ⟨fun h m f hf hnone _ => h f hf hnone, fun h f hf hnone => h _ f hf hnone rfl⟩

end

/-- **What filtering a loaded schema can miss** are names in the requests. It fails iff a request lacks a name,
with the first name of the first such request. Every reference of a type leads, in its place, to a type of a
namespace that exists. -/
theorem filterAll_lacks {documents : List SchemaDocument} (h : ofDocuments documents = .ok schema)
    (requests : List Request) :
    ((∃ m, schema.filterAll requests = .error m) ↔ ∃ q ∈ requests, ∃ m, schema.Lacks q m) ∧
    (∀ m, schema.filterAll requests = .error m ↔
      ∃ before q after names more, requests = before ++ q :: after ∧ q.typeNames = names ++ m.name :: more ∧
        (∀ p ∈ before, ∀ other, ¬ schema.Lacks p other) ∧
        (∀ other, other.name ∈ names → ¬ schema.Lacks q other) ∧ schema.Lacks q m) ∧
    ∀ t ∈ schema.types,
      List.Forall₂ (fun b (f : Frame schema) => schema.space? b.owner = some f.home ∧ b.name = f.name ∧
        ∃ u, f.home.child? f.name = some (.type u)) t.references (t.references.filterMap (Frame.of? schema)) := by
  have hl := loaded_of_ofDocuments h
  have hc := hl.toConsistent
  have hnext : ∀ f : Frame schema, ∀ g ∈ f.next, g.node?.isSome := fun f g hg => hl.node?_of_mem_next hg
  have hfirst : (schema.collectAll requests .start).2 =
      requests.findSome? fun q => ((schema.entries q).find? (·.node?.isNone)).map
        fun f => (⟨f.home.fullName, f.name⟩ : MissingType) := by
    rw [collectAll_eq_walk, walk_missing hnext, List.find?_flatMap, List.map_findSome?]
    rfl
  have herror : ∀ m, schema.filterAll requests = .error m ↔ (schema.collectAll requests .start).2 = some m := by
    intro m
    unfold filterAll
    rcases schema.collectAll requests .start with ⟨s, _ | m'⟩ <;> simp
  refine ⟨?_, fun m => ?_, fun t ht => hl.references_lead ht⟩
  · simp only [herror, ← Option.isSome_iff_exists, hfirst, List.findSome?_isSome_iff, Option.isSome_map]
    refine exists_congr fun q => and_congr_right fun _ => ?_
    rw [← not_iff_not, Option.not_isSome_iff_eq_none, lacks_none_iff hc, not_exists]
  · rw [herror, hfirst, List.findSome?_eq_some_iff]
    simp only [lacks_first_iff hc, Option.map_eq_none_iff, lacks_none_iff hc]
    constructor
    · rintro ⟨before, q, after, hrequests, ⟨hlacks, names, more, hnames, hfew⟩, hbefore⟩
      exact ⟨before, q, after, names, more, hrequests, hnames, hbefore, hfew, hlacks⟩
    · rintro ⟨before, q, after, names, more, hrequests, hnames, hbefore, hfew, hlacks⟩
      exact ⟨before, q, after, hrequests, ⟨hlacks, names, more, hnames, hfew⟩, hbefore⟩

/-- In a schema with a dotted name, what `Order` refers to is followed before the missing name is met. -/
theorem filterAll_lacks_nestedFirst :
    ofDocuments nestedFirst = .ok nestedFirstSchema ∧
    nestedFirstSchema.filterAll [⟨"gone", ["Type"]⟩, ⟨"a.b", ["Order", "Lost", "Coupon"]⟩] =
      .error ⟨"a.b", "Lost"⟩ := by
  refine ⟨ofDocuments_nestedFirst, ((filterAll_lacks ofDocuments_nestedFirst _).2.1 _).2 ?_⟩
  refine ⟨[_], _, [], ["Order"], ["Coupon"], rfl, rfl, ?_, ?_, ?_⟩
  · rintro p hp other ⟨-, ns, hns, howner, -⟩
    obtain rfl := List.mem_singleton.1 hp
    revert ns
    decide
  · rintro other hother ⟨-, ns, hns, howner, -, hnot⟩
    rw [List.mem_singleton.1 hother] at hnot
    revert ns
    decide
  · exact ⟨by decide, _, List.mem_cons_self, rfl, rfl, by decide⟩

end Schema

end SchemaClosure
