import SchemaClosure.Proofs.Reach.Closure
import SchemaClosure.Proofs.Reach.Prune
import SchemaClosure.Proofs.Schema.Loading

/-!
# References after filtering

The walk follows the fields of every type that it names, so whatever those refer to stays as well. A
namespace that a request names stays whole, but no one follows the fields of the types in it: what they
refer to stays only if something else leads there.

Main theorem `filterAll_intact_iff`: the exact condition under which no reference of a filtered schema
dangles. `filterAll_not_intact` is the smallest schema where one does.
-/

namespace SchemaClosure

namespace Schema

variable {schema pruned : Schema} {requests : List Request} {r : ReachableNames}

/-- All references lead to a type. -/
def Intact (schema : Schema) : Prop :=
  ∀ t ∈ schema.types, ∀ f ∈ t.fields, ∀ b, f.resolved = some b → (schema.type? b).isSome

/-- The namespaces that requests keep whole: those that one names in a top-level namespace, and those
below. -/
inductive KeptWhole (schema : Schema) (requests : List Request) : Namespace → Prop
  | requested {request : Request} {ns child : Namespace} :
    request ∈ requests → ns ∈ schema.namespaces → ns.name = request.owner → child ∈ ns.spaces →
    child.name ∈ request.typeNames → KeptWhole schema requests child
  | inside {ns child : Namespace} :
    KeptWhole schema requests ns → child ∈ ns.spaces → KeptWhole schema requests child

/-- There is one node at an address. -/
theorem Holds.unique (wf : schema.WellFormed) {a : TypeAddress} {x y : Node} (hx : schema.Holds a x)
    (hy : schema.Holds a y) : x = y := by
  obtain ⟨ns, hns, hx⟩ := hx
  obtain ⟨ns', hns', hy⟩ := hy
  obtain ⟨hmem, hfull⟩ := (stands_iff wf.toConsistent).1 hns
  obtain ⟨hmem', hfull'⟩ := (stands_iff wf.toConsistent).1 hns'
  obtain rfl := eq_of_fullName_eq wf hmem hmem' (hfull.trans hfull'.symm)
  have hnodup := wf.children_nodup ns hmem
  have hchild := (Namespace.child?_eq_some_iff hnodup).2 hx
  rw [(Namespace.child?_eq_some_iff hnodup).2 hy] at hchild
  exact (Option.some.inj hchild).symm

theorem Holds.mem_types {a : TypeAddress} {t : TypeDecl} (h : schema.Holds a (.type t)) :
    t ∈ schema.types := by
  obtain ⟨ns, ⟨path, hat, -⟩, hnode, -⟩ := h
  exact Schema.mem_types.2 ⟨ns, hat.mem_spaces, Namespace.mem_types.2 hnode⟩

/-- References lead to types, so that a namespace is in the closure only if it is requested. -/
theorem Closure.requested_of_space (hl : schema.Loaded) (wf : schema.WellFormed) {ns child : Namespace}
    (hns : ns ∈ schema.spaces) (hchild : child ∈ ns.spaces)
    (h : schema.Closure requests ⟨ns.fullName, child.name⟩) :
    ∃ request ∈ requests, ns ∈ schema.namespaces ∧ ns.name = request.owner ∧
      child.name ∈ request.typeNames := by
  generalize ha : (⟨ns.fullName, child.name⟩ : TypeAddress) = a at h
  cases h with
  | @entry request top name hrequest htop howner hname =>
    injection ha with hfull hchildName
    have htopFull : top.fullName = ns.fullName := by rw [wf.top_fullName top htop, howner, hfull]
    obtain rfl := eq_of_fullName_eq wf (mem_spaces_of_mem_namespaces htop) hns htopFull
    exact ⟨request, hrequest, htop, howner, hchildName ▸ hname⟩
  | @reference b _ t f home hb hholds hkind hf hresolved hstands =>
    subst ha
    have htype := hl.type?_of_resolved hholds.mem_types hf hresolved
    obtain ⟨u, hu⟩ := Option.isSome_iff_exists.1 htype
    have hspace : schema.Holds ⟨ns.fullName, child.name⟩ child.toNode :=
      ⟨ns, (stands_iff wf.toConsistent).2 ⟨hns, rfl⟩, Namespace.mem_spaces.1 hchild, rfl⟩
    cases ((type?_eq_some_iff wf).1 hu).unique wf hspace

/-- What stays whole is what requests keep whole. -/
theorem keptWhole_iff (hl : schema.Loaded) (wf : schema.WellFormed)
    (h : schema.filterAll requests = .ok (r, pruned)) {ns : Namespace} :
    schema.KeptWhole requests ns ↔ ∃ path, schema.WholeAt r path ns := by
  constructor
  · intro hkept
    induction hkept with
    | @requested request ns child hrequest hns howner hchild hname =>
      have hclosure : schema.Closure requests ⟨ns.fullName, child.name⟩ := by
        rw [wf.top_fullName ns hns, howner]
        exact .entry hrequest hns howner hname
      exact ⟨_, .named (.top hns) hchild ((mem_reachable_iff wf h).2 hclosure)⟩
    | inside _ hchild ih =>
      obtain ⟨path, hwhole⟩ := ih
      exact ⟨_, hwhole.inside hchild⟩
  · rintro ⟨path, hwhole⟩
    induction hwhole with
    | @named path ns child hat hchild hname =>
      have hclosure := (mem_reachable_iff (a := ⟨ns.fullName, child.name⟩) wf h).1 hname
      obtain ⟨request, hrequest, htop, howner, hrequested⟩ :=
        hclosure.requested_of_space hl wf hat.mem_spaces hchild
      exact .requested hrequest htop howner hchild hrequested
    | inside _ hchild ih => exact .inside ih hchild

/-- What still leads to a type after filtering: the closure, and the types of namespaces kept whole. -/
theorem type?_filtered_iff (hl : schema.Loaded) (wf : schema.WellFormed)
    (h : schema.filterAll requests = .ok (r, pruned)) {b : TypeAddress} (hb : (schema.type? b).isSome) :
    (pruned.type? b).isSome ↔ schema.Closure requests b ∨
      ∃ home, schema.KeptWhole requests home ∧ home.fullName = b.owner := by
  obtain rfl := eq_prune_of_filterAll h
  obtain ⟨t, ht⟩ := Option.isSome_iff_exists.1 hb
  have hkept : (∃ path home, schema.WholeAt r path home ∧ home.fullName = b.owner) ↔
      ∃ home, schema.KeptWhole requests home ∧ home.fullName = b.owner := by
    constructor
    · rintro ⟨path, home, hwhole, hfull⟩
      exact ⟨home, (keptWhole_iff hl wf h).2 ⟨path, hwhole⟩, hfull⟩
    · rintro ⟨home, hhome, hfull⟩
      obtain ⟨path, hwhole⟩ := (keptWhole_iff hl wf h).1 hhome
      exact ⟨path, home, hwhole, hfull⟩
  rw [← mem_reachable_iff wf h, ← hkept, Option.isSome_iff_exists]
  constructor
  · rintro ⟨u, hu⟩
    exact ((type?_prune_eq_some_iff wf).1 hu).2
  · exact fun hstay => ⟨t, (type?_prune_eq_some_iff wf).2 ⟨ht, hstay⟩⟩

/-- Whatever a type in the closure refers to is in the closure. -/
theorem closure_of_resolved (hl : schema.Loaded) (wf : schema.WellFormed) {ns : Namespace}
    (hns : ns ∈ schema.spaces) {t : TypeDecl} (ht : t ∈ ns.types)
    (hclosure : schema.Closure requests ⟨ns.fullName, t.name⟩) {f : Field} (hf : f ∈ t.fields)
    {b : TypeAddress} (hb : f.resolved = some b) : schema.Closure requests b := by
  have hholds : schema.Holds ⟨ns.fullName, t.name⟩ (.type t) :=
    ⟨ns, (stands_iff wf.toConsistent).2 ⟨hns, rfl⟩, Namespace.mem_types.1 ht, rfl⟩
  have hkind : t.kind = .message := by
    cases (hl.sound ns hns).canonical t ht with
    | enum _ => cases hf
    | message _ _ => rfl
  obtain ⟨u, hu⟩ := Option.isSome_iff_exists.1 (hl.type?_of_resolved hholds.mem_types hf hb)
  obtain ⟨home, hstands, -⟩ := (type?_eq_some_iff wf).1 hu
  exact .reference hclosure hholds hkind hf hb hstands

/-- When the namespaces that are kept whole refer only to what stays, no reference dangles. -/
theorem intact_of_keptWhole (hl : schema.Loaded) (wf : schema.WellFormed)
    (h : schema.filterAll requests = .ok (r, pruned))
    (hkept : ∀ ns, schema.KeptWhole requests ns → ∀ t ∈ ns.types, ∀ f ∈ t.fields, ∀ b,
      f.resolved = some b → schema.Closure requests b ∨
        ∃ home, schema.KeptWhole requests home ∧ home.fullName = b.owner) : pruned.Intact := by
  obtain rfl := eq_prune_of_filterAll h
  intro t ht f hf b hb
  obtain ⟨path, ns, hat, ht, hstays⟩ := (mem_types_prune_iff wf.toConsistent).1 ht
  have hsome := hl.type?_of_resolved (mem_types.2 ⟨ns, hat.mem_spaces, ht⟩) hf hb
  rw [type?_filtered_iff hl wf h hsome]
  rcases hstays with hwhole | hname
  · exact hkept ns ((keptWhole_iff hl wf h).2 ⟨path, hwhole⟩) t ht f hf b hb
  · have hclosure := (mem_reachable_iff (a := ⟨ns.fullName, t.name⟩) wf h).1 hname
    exact .inl (closure_of_resolved hl wf hat.mem_spaces ht hclosure hf hb)

/-- **When references dangle**: after filtering a loaded schema all references lead to a type iff the
types in the namespaces that the requests keep whole refer only to the closure of the requests and to such
namespaces. -/
theorem filterAll_intact_iff {documents : List SchemaDocument} (hload : ofDocuments documents = .ok schema)
    (hdot : schema.DotFree) (h : schema.filterAll requests = .ok (r, pruned)) :
    pruned.Intact ↔ ∀ ns, schema.KeptWhole requests ns → ∀ t ∈ ns.types, ∀ f ∈ t.fields, ∀ b,
      f.resolved = some b → schema.Closure requests b ∨
        ∃ home, schema.KeptWhole requests home ∧ home.fullName = b.owner := by
  have hl := loaded_of_ofDocuments hload
  have wf : schema.WellFormed := ⟨hl.toConsistent, hdot⟩
  refine ⟨fun hintact ns hns t ht f hf b hb => ?_, intact_of_keptWhole hl wf h⟩
  obtain ⟨path, hwhole⟩ := (keptWhole_iff hl wf h).1 hns
  have hmem := hwhole.at.mem_spaces
  rw [← type?_filtered_iff hl wf h (hl.type?_of_resolved (mem_types.2 ⟨ns, hmem, ht⟩) hf hb)]
  have htPruned : t ∈ pruned.types := by
    obtain ⟨s, -, rfl, rfl⟩ := filterAll_eq_ok_iff.1 h
    exact (mem_types_prune_iff wf.toConsistent).2 ⟨path, ns, hwhole.at, ht, .inl hwhole⟩
  exact hintact t htPruned f hf b hb

/-! ### A namespace that is kept whole and refers to a type outside -/

/-- Entries of a log, each with its actor. -/
def auditLog : Namespace :=
  ⟨"log", "audit.log", [], [
    sampleMessage "audit.log" "Entry" [sampleField "actor" "Actor" (some ⟨"audit", "Actor"⟩)]]⟩

/-- Actors, and the log that refers to them. -/
def audit : Schema := ⟨[⟨"audit", "audit", [], [sampleMessage "audit" "Actor" [], auditLog.toNode]⟩]⟩

/-- The document that declares them. -/
def auditDocument : SchemaDocument where
  source := "audit"
  content := [(.text "namespaces", .record [("audit", .record [
    ("types", .record [("Actor", .record [])]),
    ("namespaces", .record [("log", .record [("types", .record [
      ("Entry", .record [("fields", .list none [
        .record [("name", .text "actor"), ("type", .text "Actor")]])])])])])])])]

theorem ofDocuments_audit : ofDocuments [auditDocument] = .ok audit := by
  refine ofDocuments_eq_ok_iff.2 ⟨_, rfl, rfl, ?_⟩
  rw [types_eq_allTypesWithin]
  decide

theorem keptWhole_audit {requests : List Request} {ns : Namespace} (h : audit.KeptWhole requests ns) :
    ns = auditLog := by
  induction h with
  | @requested request ns child hrequest hns howner hchild hname =>
    obtain rfl := List.mem_singleton.1 hns
    exact List.mem_singleton.1 hchild
  | inside _ hchild ih =>
    subst ih
    cases hchild

/-- Nothing dangles when the log is requested together with the actors. -/
theorem filterAll_intact_audit :
    ofDocuments [auditDocument] = .ok audit ∧ audit.DotFree ∧
    ∃ pruned, audit.filterAll [⟨"audit", ["log", "Actor"]⟩] = .ok ([("audit", ["log", "Actor"])], pruned) ∧
      pruned.Intact := by
  have hdot : audit.DotFree := by decide
  have h : audit.filterAll [⟨"audit", ["log", "Actor"]⟩] = .ok (_, _) :=
    filterAll_of_filterUpTo (n := 3) rfl
  refine ⟨ofDocuments_audit, hdot, _, h, (filterAll_intact_iff ofDocuments_audit hdot h).2 ?_⟩
  intro ns hns t ht f hf b hb
  obtain rfl := keptWhole_audit hns
  obtain rfl := List.mem_singleton.1 ht
  obtain rfl := List.mem_singleton.1 hf
  cases hb
  exact .inl (.entry List.mem_cons_self List.mem_cons_self rfl (by decide))

/-- When the log alone is requested its entries stay and refer to an actor that is gone. -/
theorem filterAll_not_intact :
    ofDocuments [auditDocument] = .ok audit ∧ audit.DotFree ∧
    ∃ pruned, audit.filterAll [⟨"audit", ["log"]⟩] = .ok ([("audit", ["log"])], pruned) ∧
      ¬ pruned.Intact := by
  have h : audit.filterAll [⟨"audit", ["log"]⟩] =
      .ok ([("audit", ["log"])], ⟨[⟨"audit", "audit", [], [auditLog.toNode]⟩]⟩) :=
    filterAll_of_filterUpTo (n := 2) rfl
  refine ⟨ofDocuments_audit, by decide, _, h, fun hintact => ?_⟩
  have hlog : auditLog ∈ (Schema.mk [⟨"audit", "audit", [], [auditLog.toNode]⟩]).spaces := by
    simp [spaces, Node.allSpaces, Node.spaces_toNode]
  have hactor := hintact _ (mem_types.2 ⟨auditLog, hlog, List.mem_cons_self⟩) _ List.mem_cons_self _ rfl
  exact absurd hactor (by decide)

end Schema

end SchemaClosure
