import SchemaClosure.Proofs.Reach.Names
import SchemaClosure.Proofs.Schema.Types

/-!
# What pruning keeps

A namespace of the pruned schema is one of the schema that is kept whole (`WholeAt`), because it or one
above it is named in the set of its parent, or else what pruning leaves of one that leads to an entry.
Both directions are by induction on the path (`at_of_at_prune`, `at_prune_of_leadsFrom`,
`at_prune_of_wholeAt`); together they say which types stay (`exists_type_at_prune_iff`).

Pruning keeps every look-up of a name in the set (`lookup_prune`), and pruning to a larger set first
changes nothing (`prune_prune`).
-/

namespace SchemaClosure

namespace ReachableNames

/-- Every entry and every name of the set is in the other one. -/
structure Within (r r' : ReachableNames) : Prop where
  owners : r.owners ⊆ r'.owners
  names : ∀ owner, r.names owner ⊆ r'.names owner

theorem Within.refl (r : ReachableNames) : r.Within r :=
  ⟨List.Subset.refl _, fun _ => List.Subset.refl _⟩

theorem within_iff {r r' : ReachableNames} :
    r.Within r' ↔ ∀ n ∈ r.owners, n ∈ r'.owners ∧ r.names n ⊆ r'.names n := by
  constructor
  · exact fun h n hn => ⟨h.owners hn, h.names n⟩
  · intro h
    refine ⟨fun n hn => (h n hn).1, fun n x hx => ?_⟩
    exact (h n (mem_owners_of_mem_names hx)).2 hx

/-- A filled set is within another one if its names are. -/
theorem Filled.within {r r' : ReachableNames} (h : r.Filled)
    (hnames : ∀ owner, r.names owner ⊆ r'.names owner) : r.Within r' := by
  refine within_iff.2 fun n hn => ⟨?_, hnames n⟩
  obtain ⟨x, hx⟩ := h.mem_owners_iff.1 hn
  exact mem_owners_of_mem_names (hnames n hx)

instance (r r' : ReachableNames) : Decidable (r.Within r') :=
  decidable_of_iff _ within_iff.symm

theorem Within.leadsFrom {r r' : ReachableNames} (h : r.Within r') {fullName : String}
    (hl : r.leadsFrom fullName = true) : r'.leadsFrom fullName = true := by
  obtain ⟨n, hn, hlead⟩ := leadsFrom_iff.1 hl
  exact leadsFrom_iff.2 ⟨n, h.owners hn, hlead⟩

theorem leadsFrom_of_mem_names {r : ReachableNames} {owner name : String}
    (h : name ∈ r.names owner) : r.leadsFrom owner = true :=
  leadsFrom_iff.2 ⟨owner, mem_owners_of_mem_names h, .inl rfl⟩

/-- What leads from a name leads from every name above it. -/
theorem leadsFrom_above {r : ReachableNames} {fullName name : String}
    (h : r.leadsFrom (fullName ++ "." ++ name) = true) : r.leadsFrom fullName = true := by
  obtain ⟨n, hn, rfl | ⟨rest, rfl⟩⟩ := leadsFrom_iff.1 h
  · exact leadsFrom_iff.2 ⟨_, hn, .inr ⟨name, rfl⟩⟩
  · refine leadsFrom_iff.2 ⟨_, hn, .inr ⟨name ++ "." ++ rest, ?_⟩⟩
    simp [String.append_assoc]

end ReachableNames

/-! ## Nodes -/

/-- What stays of the inside of a namespace that is not kept whole. -/
def Namespace.prune (r : ReachableNames) (ns : Namespace) : Namespace :=
  { ns with children := Node.pruneAll r (r.names ns.fullName) ns.children }

namespace Node

variable {r : ReachableNames} {required : List String}

theorem prune_of_mem {node : Node} (h : node.name ∈ required) : node.prune r required = some node := by
  cases node with
  | type t =>
    have h : t.name ∈ required := h
    simp [prune, h]
  | space name fullName options children =>
    have h : name ∈ required := h
    simp [prune, h]

theorem prune_type_of_not_mem {t : TypeDecl} (h : t.name ∉ required) :
    (Node.type t).prune r required = none := by
  simp [prune, h]

theorem prune_space_of_not_mem {ns : Namespace} (h : ns.name ∉ required) :
    ns.toNode.prune r required =
      if r.leadsFrom ns.fullName then some (ns.prune r).toNode else none := by
  simp [Namespace.toNode, prune, h, Namespace.prune]

theorem name_of_prune {node node' : Node} (h : node.prune r required = some node') :
    node'.name = node.name := by
  by_cases hname : node.name ∈ required
  · rw [prune_of_mem hname] at h
    cases h
    rfl
  · cases node with
    | type t =>
      rw [prune_type_of_not_mem hname] at h
      cases h
    | space name fullName options children =>
      rw [← Namespace.toNode_of_space? (rfl : space? (.space name fullName options children) = _),
        prune_space_of_not_mem hname] at h
      split at h
      · cases h
        rfl
      · cases h

theorem pruneAll_eq_filterMap (nodes : List Node) : pruneAll r required nodes = nodes.filterMap (prune r required) := by
  induction nodes with
  | nil => rfl
  | cons node rest ih =>
    rw [pruneAll, ih, List.filterMap_cons]
    cases node.prune r required <;> rfl

theorem mem_pruneAll {nodes : List Node} {node' : Node} :
    node' ∈ pruneAll r required nodes ↔ ∃ node ∈ nodes, node.prune r required = some node' := by
  rw [pruneAll_eq_filterMap, List.mem_filterMap]

theorem names_pruneAll_sublist (nodes : List Node) :
    ((pruneAll r required nodes).map name).Sublist (nodes.map name) := by
  induction nodes with
  | nil => exact List.Sublist.refl _
  | cons node rest ih =>
    simp only [pruneAll, List.map_append, List.map_cons]
    cases h : node.prune r required with
    | none => exact ih.cons _
    | some node' =>
      simp only [Option.toList_some, List.map_cons, List.map_nil, name_of_prune h]
      exact ih.cons_cons _

/-- A required name is found where it was. -/
theorem find?_pruneAll {name : String} (h : name ∈ required) (nodes : List Node) :
    (pruneAll r required nodes).find? (·.name == name) = nodes.find? (·.name == name) := by
  induction nodes with
  | nil => rfl
  | cons node rest ih =>
    by_cases hname : node.name = name
    · rw [pruneAll, prune_of_mem (by rwa [hname])]
      simp [hname]
    · cases hprune : node.prune r required with
      | none => simp [pruneAll, hprune, hname, ih]
      | some node' =>
        have hname' : node'.name ≠ name := by rwa [name_of_prune hprune]
        simp [pruneAll, hprune, hname, hname', ih]

mutual

theorem prune_prune {r' : ReachableNames} (h : r.Within r') {required required' : List String}
    (hreq : required ⊆ required') (node : Node) :
    (node.prune r' required').bind (Node.prune r required) = node.prune r required := by
  by_cases hname : node.name ∈ required'
  · rw [prune_of_mem hname, Option.bind_some]
  · have hname' : node.name ∉ required := fun hmem => hname (hreq hmem)
    match node with
    | .type t => rw [prune_type_of_not_mem hname, prune_type_of_not_mem hname', Option.bind_none]
    | .space name fullName options children =>
      have ih := pruneAll_pruneAll h (h.names fullName) children
      have hname : name ∉ required' := hname
      have hname' : name ∉ required := hname'
      by_cases hlead : r.leadsFrom fullName = true
      · simp [prune, hname, hname', hlead, h.leadsFrom hlead, ih]
      · by_cases hlead' : r'.leadsFrom fullName = true <;> simp [prune, hname, hname', hlead, hlead']

theorem pruneAll_pruneAll {r' : ReachableNames} (h : r.Within r') {required required' : List String}
    (hreq : required ⊆ required') (nodes : List Node) :
    pruneAll r required (pruneAll r' required' nodes) = pruneAll r required nodes := by
  match nodes with
  | [] => rfl
  | node :: rest =>
    have ih := prune_prune h hreq node
    have ihRest := pruneAll_pruneAll h hreq rest
    cases hnode : node.prune r' required' with
    | none =>
      rw [hnode, Option.bind_none] at ih
      simp [pruneAll, hnode, ihRest, ← ih]
    | some node' =>
      rw [hnode, Option.bind_some] at ih
      simp [pruneAll, hnode, ihRest, ih]

end

/-- A type stays a type if it is required; no namespace turns into one. -/
theorem prune_bind_type? (node : Node) :
    (node.prune r required).bind type? = node.type?.filter fun t => required.contains t.name := by
  cases node with
  | type t => by_cases ht : t.name ∈ required <;> simp [prune, ht, type?, Option.filter]
  | space name fullName options children =>
    by_cases hname : name ∈ required
    · simp [prune, hname, type?]
    · by_cases hlead : r.leadsFrom fullName = true <;> simp [prune, hname, hlead, type?]

theorem filterMap_type?_pruneAll (nodes : List Node) :
    (pruneAll r required nodes).filterMap type? = (nodes.filterMap type?).filter fun t => required.contains t.name := by
  rw [pruneAll_eq_filterMap, List.filterMap_filterMap, List.filter_filterMap]
  exact congrArg (nodes.filterMap ·) (funext prune_bind_type?)

theorem filterMap_type?_pruneAll_sublist (nodes : List Node) :
    ((pruneAll r required nodes).filterMap Node.type?).Sublist (nodes.filterMap Node.type?) := by
  rw [filterMap_type?_pruneAll]
  exact List.filter_sublist

mutual

theorem typesWithin_prune_sublist (required : List String) (node : Node) :
    (allTypesWithin (node.prune r required).toList).Sublist node.typesWithin := by
  match node with
  | .type t =>
    by_cases ht : t.name ∈ required
    · rw [prune_of_mem ht]
      exact List.Sublist.refl _
    · rw [prune_type_of_not_mem ht]
      exact List.Sublist.refl _
  | .space name fullName options children =>
    have ih := allTypesWithin_pruneAll_sublist (r.names fullName) children
    by_cases hname : name ∈ required
    · simp [prune, hname, allTypesWithin]
    · by_cases hlead : r.leadsFrom fullName = true
      · simpa [prune, hname, hlead, allTypesWithin, typesWithin] using
          (filterMap_type?_pruneAll_sublist children).append ih
      · simp [prune, hname, hlead, allTypesWithin]

theorem allTypesWithin_pruneAll_sublist (required : List String) (nodes : List Node) :
    (allTypesWithin (pruneAll r required nodes)).Sublist (allTypesWithin nodes) := by
  match nodes with
  | [] => exact List.Sublist.refl _
  | node :: rest =>
    rw [pruneAll, allTypesWithin_append, allTypesWithin]
    exact (typesWithin_prune_sublist required node).append (allTypesWithin_pruneAll_sublist required rest)

end

end Node

/-! ## Namespaces -/

namespace Schema

variable {schema : Schema} {r : ReachableNames}

theorem mem_namespaces_prune {ns' : Namespace} :
    ns' ∈ (schema.prune r).namespaces ↔
      ∃ ns ∈ schema.namespaces, r.leadsFrom ns.fullName = true ∧ ns.prune r = ns' := by
  simp [prune, Namespace.prune, and_assoc]

/-- The namespace at the path, or one above it, is named in the set of its parent. -/
inductive WholeAt (schema : Schema) (r : ReachableNames) : List String → Namespace → Prop
  | named {path : List String} {ns child : Namespace} :
    schema.At path ns → child ∈ ns.spaces → child.name ∈ r.names ns.fullName →
    WholeAt schema r (path ++ [child.name]) child
  | inside {path : List String} {ns child : Namespace} :
    WholeAt schema r path ns → child ∈ ns.spaces → WholeAt schema r (path ++ [child.name]) child

theorem WholeAt.at {path : List String} {ns : Namespace} (h : schema.WholeAt r path ns) :
    schema.At path ns := by
  induction h with
  | named h hc _ => exact h.child hc
  | inside _ hc ih => exact ih.child hc

theorem mem_spaces_prune {ns child' : Namespace} :
    child' ∈ (ns.prune r).spaces ↔ ∃ child ∈ ns.spaces,
      if child.name ∈ r.names ns.fullName then child' = child
      else r.leadsFrom child.fullName = true ∧ child' = child.prune r := by
  simp only [Namespace.mem_spaces, Namespace.prune, Node.mem_pruneAll]
  constructor
  · rintro ⟨node, hnode, h⟩
    have hname := Node.name_of_prune h
    cases node with
    | type t =>
      by_cases ht : t.name ∈ r.names ns.fullName
      · rw [Node.prune_of_mem ht] at h
        cases h
      · rw [Node.prune_type_of_not_mem ht] at h
        cases h
    | space name fullName options children =>
      refine ⟨⟨name, fullName, options, children⟩, hnode, ?_⟩
      split
      · rename_i hmem
        rw [Node.prune_of_mem hmem] at h
        exact Namespace.toNode_inj (Option.some.inj h).symm
      · rename_i hmem
        have h' := (Node.prune_space_of_not_mem (r := r) hmem).symm.trans h
        split at h'
        · rename_i hlead
          exact ⟨hlead, Namespace.toNode_inj (Option.some.inj h').symm⟩
        · cases h'
  · rintro ⟨child, hchild, h⟩
    refine ⟨child.toNode, hchild, ?_⟩
    split at h
    · rename_i hmem
      subst h
      exact Node.prune_of_mem hmem
    · rename_i hmem
      obtain ⟨hlead, rfl⟩ := h
      rw [Node.prune_space_of_not_mem hmem, if_pos hlead]
      rfl

theorem mem_types_prune {ns : Namespace} {t : TypeDecl} :
    t ∈ (ns.prune r).types ↔ t ∈ ns.types ∧ t.name ∈ r.names ns.fullName := by
  simp only [Namespace.mem_types, Namespace.prune, Node.mem_pruneAll]
  constructor
  · rintro ⟨node, hnode, h⟩
    cases node with
    | type u =>
      by_cases hu : u.name ∈ r.names ns.fullName
      · rw [Node.prune_of_mem hu] at h
        cases h
        exact ⟨hnode, hu⟩
      · rw [Node.prune_type_of_not_mem hu] at h
        cases h
    | space name fullName options children =>
      simp only [Node.prune] at h
      split at h
      · cases h
      · split at h <;> cases h
  · rintro ⟨ht, hname⟩
    exact ⟨_, ht, Node.prune_of_mem hname⟩

/-- A namespace of the pruned schema is kept whole, or is what stays of one that leads to an entry. -/
theorem at_of_at_prune {path : List String} {ns' : Namespace} (h : (schema.prune r).At path ns') :
    ∃ ns, schema.At path ns ∧
      ((schema.WholeAt r path ns ∧ ns' = ns) ∨ (r.leadsFrom ns.fullName = true ∧ ns' = ns.prune r)) := by
  induction h with
  | top h =>
    obtain ⟨ns, hns, hlead, rfl⟩ := mem_namespaces_prune.1 h
    exact ⟨ns, .top hns, .inr ⟨hlead, rfl⟩⟩
  | @child path ns' child' h hc ih =>
    obtain ⟨ns, hat, ⟨hwhole, rfl⟩ | ⟨hlead, rfl⟩⟩ := ih
    · exact ⟨child', hat.child hc, .inl ⟨hwhole.inside hc, rfl⟩⟩
    · obtain ⟨child, hchild, hchild'⟩ := mem_spaces_prune.1 hc
      split at hchild'
      · rename_i hmem
        subst hchild'
        exact ⟨child', hat.child hchild, .inl ⟨.named hat hchild hmem, rfl⟩⟩
      · obtain ⟨hlead', rfl⟩ := hchild'
        exact ⟨child, hat.child hchild, .inr ⟨hlead', rfl⟩⟩

/-- A namespace that leads to an entry stays, whole or in part. -/
theorem at_prune_of_leadsFrom (hcons : schema.Consistent) {path : List String} {ns : Namespace}
    (h : schema.At path ns) (hlead : r.leadsFrom ns.fullName = true) :
    (schema.prune r).At path ns ∨ (schema.prune r).At path (ns.prune r) := by
  induction h with
  | @top ns h => exact .inr (.top (mem_namespaces_prune.2 ⟨ns, h, hlead, rfl⟩))
  | @child path ns child h hc ih =>
    rw [hcons.below_fullName _ h.mem_spaces _ hc] at hlead
    rcases ih (ReachableNames.leadsFrom_above hlead) with ih | ih
    · exact .inl (ih.child hc)
    · rw [← hcons.below_fullName _ h.mem_spaces _ hc] at hlead
      by_cases hmem : child.name ∈ r.names ns.fullName
      · exact .inl (ih.child (mem_spaces_prune.2 ⟨child, hc, by simp [hmem]⟩))
      · have hc' : child.prune r ∈ (ns.prune r).spaces :=
          mem_spaces_prune.2 ⟨child, hc, by simp [hmem, hlead]⟩
        exact .inr (ih.child hc')

/-- A namespace that is kept whole stays as it is. -/
theorem at_prune_of_wholeAt (hcons : schema.Consistent) {path : List String} {ns : Namespace}
    (h : schema.WholeAt r path ns) : (schema.prune r).At path ns := by
  induction h with
  | @named path ns child h hc hmem =>
    rcases at_prune_of_leadsFrom hcons h (ReachableNames.leadsFrom_of_mem_names hmem) with h | h
    · exact h.child hc
    · exact h.child (mem_spaces_prune.2 ⟨child, hc, by simp [hmem]⟩)
  | inside _ hc ih => exact ih.child hc

/-- A namespace of the pruned schema is one of the schema, as it was or pruned. -/
theorem exists_of_mem_spaces_prune {ns' : Namespace} (h : ns' ∈ (schema.prune r).spaces) :
    ∃ ns ∈ schema.spaces, ns' = ns ∨ ns' = ns.prune r := by
  obtain ⟨path, h⟩ := mem_spaces_iff_at.1 h
  obtain ⟨ns, hat, ⟨-, h⟩ | ⟨-, h⟩⟩ := at_of_at_prune h
  · exact ⟨ns, hat.mem_spaces, .inl h⟩
  · exact ⟨ns, hat.mem_spaces, .inr h⟩

theorem names_prune_sublist (schema : Schema) (r : ReachableNames) :
    ((schema.prune r).namespaces.map Namespace.name).Sublist (schema.namespaces.map Namespace.name) := by
  have hmap : (schema.prune r).namespaces.map Namespace.name =
      (schema.namespaces.filter fun ns => r.leadsFrom ns.fullName).map Namespace.name := by
    simp [Schema.prune, Function.comp_def]
  rw [hmap]
  exact List.filter_sublist.map _

theorem Consistent.prune (hcons : schema.Consistent) (r : ReachableNames) :
    (schema.prune r).Consistent := by
  constructor
  · exact hcons.names_nodup.sublist (names_prune_sublist schema r)
  · intro ns' h
    obtain ⟨ns, hns, -, rfl⟩ := mem_namespaces_prune.1 h
    exact hcons.top_fullName ns hns
  · intro ns' h
    obtain ⟨ns, hns, rfl | rfl⟩ := exists_of_mem_spaces_prune h
    · exact hcons.children_nodup ns' hns
    · exact (hcons.children_nodup ns hns).sublist (Node.names_pruneAll_sublist _)
  · intro ns' h child' hc'
    obtain ⟨ns, hns, rfl | rfl⟩ := exists_of_mem_spaces_prune h
    · exact hcons.below_fullName ns' hns child' hc'
    · obtain ⟨child, hc, hchild'⟩ := mem_spaces_prune.1 hc'
      have hfull := hcons.below_fullName ns hns child hc
      split at hchild'
      · subst hchild'
        exact hfull
      · obtain ⟨-, rfl⟩ := hchild'
        exact hfull

theorem DotFree.prune (hdot : schema.DotFree) (r : ReachableNames) : (schema.prune r).DotFree := by
  intro ns' h
  obtain ⟨ns, hns, rfl | rfl⟩ := exists_of_mem_spaces_prune h
  · exact hdot ns' hns
  · exact hdot ns hns

theorem WellFormed.prune (wf : schema.WellFormed) (r : ReachableNames) : (schema.prune r).WellFormed :=
  ⟨wf.toConsistent.prune r, wf.dotFree.prune r⟩

/-- **Which types stay at a path**: those of a namespace that is kept whole, and those that the set names. -/
theorem exists_type_at_prune_iff (hcons : schema.Consistent) {path : List String} {t : TypeDecl} :
    (∃ left, (schema.prune r).At path left ∧ t ∈ left.types) ↔
      ∃ ns, schema.At path ns ∧ t ∈ ns.types ∧
        (schema.WholeAt r path ns ∨ t.name ∈ r.names ns.fullName) := by
  constructor
  · rintro ⟨left, hleft, ht⟩
    obtain ⟨ns, hat, ⟨hwhole, rfl⟩ | ⟨-, rfl⟩⟩ := at_of_at_prune hleft
    · exact ⟨left, hat, ht, .inl hwhole⟩
    · obtain ⟨ht, hname⟩ := mem_types_prune.1 ht
      exact ⟨ns, hat, ht, .inr hname⟩
  · rintro ⟨ns, hat, ht, hwhole | hname⟩
    · exact ⟨ns, at_prune_of_wholeAt hcons hwhole, ht⟩
    · have hlead := ReachableNames.leadsFrom_of_mem_names hname
      rcases at_prune_of_leadsFrom hcons hat hlead with h | h
      · exact ⟨ns, h, ht⟩
      · exact ⟨ns.prune r, h, mem_types_prune.2 ⟨ht, hname⟩⟩

/-- **The types that stay** are those in namespaces that are kept whole and those that the set names. -/
theorem mem_types_prune_iff (hcons : schema.Consistent) {t : TypeDecl} :
    t ∈ (schema.prune r).types ↔
      ∃ path ns, schema.At path ns ∧ t ∈ ns.types ∧
        (schema.WholeAt r path ns ∨ t.name ∈ r.names ns.fullName) := by
  simp only [mem_types_iff_at, exists_type_at_prune_iff hcons]

/-- The types that stay are in the order in which they were. -/
theorem types_prune_sublist (schema : Schema) (r : ReachableNames) :
    (schema.prune r).types.Sublist schema.types := by
  rw [types_eq_allTypesWithin, types_eq_allTypesWithin]
  unfold prune
  induction schema.namespaces with
  | nil => exact List.Sublist.refl _
  | cons ns rest ih =>
    have hns : (ns.prune r).toNode.typesWithin.Sublist ns.toNode.typesWithin :=
      (Node.filterMap_type?_pruneAll_sublist ns.children).append
        (Node.allTypesWithin_pruneAll_sublist _ ns.children)
    by_cases hlead : r.leadsFrom ns.fullName = true
    · simpa [hlead, Node.allTypesWithin, Namespace.prune] using hns.append ih
    · simpa [hlead, Node.allTypesWithin] using ih.trans (List.sublist_append_right _ _)

/-! ## Looking up after pruning -/

theorem child?_prune {ns : Namespace} {name : String} (h : name ∈ r.names ns.fullName) :
    (ns.prune r).child? name = ns.child? name :=
  Node.find?_pruneAll h ns.children

/-- Looking up a name of the set gives what it gave before. -/
theorem lookup_prune (wf : schema.WellFormed) {ns : Namespace} (hns : ns ∈ schema.spaces) {name : String}
    (h : name ∈ r.names ns.fullName) :
    ∃ ns', (schema.prune r).space? ns.fullName = some ns' ∧ ns'.child? name = ns.child? name := by
  obtain ⟨path, hat⟩ := mem_spaces_iff_at.1 hns
  have hfind : ∀ {ns' : Namespace}, (schema.prune r).At path ns' → ns'.fullName = ns.fullName →
      (schema.prune r).space? ns.fullName = some ns' := fun hat' hfull =>
    (space?_eq_some_iff (wf.prune r)).2 ⟨hat'.mem_spaces, hfull⟩
  rcases at_prune_of_leadsFrom wf.toConsistent hat (ReachableNames.leadsFrom_of_mem_names h) with h' | h'
  · exact ⟨ns, hfind h' rfl, rfl⟩
  · exact ⟨ns.prune r, hfind h' rfl, child?_prune h⟩

/-- **Which addresses still lead to a type**: those that the set names, and those in namespaces that are
kept whole. -/
theorem type?_prune_eq_some_iff (wf : schema.WellFormed) {a : TypeAddress} {t : TypeDecl} :
    (schema.prune r).type? a = some t ↔ schema.type? a = some t ∧
      (a.name ∈ r.names a.owner ∨ ∃ path ns, schema.WholeAt r path ns ∧ ns.fullName = a.owner) := by
  simp only [type?_eq_some_iff_at (wf.prune r), type?_eq_some_iff_at wf,
    exists_type_at_prune_iff wf.toConsistent]
  constructor
  · rintro ⟨path, hpath, hname, ns, hat, ht, hstays⟩
    have hfull := (hat.fullName_eq wf.toConsistent).trans hpath
    refine ⟨⟨path, hpath, hname, ns, hat, ht⟩, ?_⟩
    rcases hstays with hwhole | hreq
    · exact .inr ⟨path, ns, hwhole, hfull⟩
    · rw [hfull, hname] at hreq
      exact .inl hreq
  · rintro ⟨⟨path, hpath, hname, ns, hat, ht⟩, hstays⟩
    have hfull := (hat.fullName_eq wf.toConsistent).trans hpath
    refine ⟨path, hpath, hname, ns, hat, ht, ?_⟩
    rcases hstays with hreq | ⟨path', home, hwhole, hhome⟩
    · rw [← hfull, ← hname] at hreq
      exact .inr hreq
    · have hsame : path' = path := by
        rw [← hwhole.at.pieces_fullName wf, ← hat.pieces_fullName wf, hhome, hfull]
      subst hsame
      rw [hat.unique wf.toConsistent hwhole.at]
      exact .inl hwhole

/-- Where there was no namespace there is none after pruning. -/
theorem space?_prune_eq_none (wf : schema.WellFormed) {fullName : String}
    (h : schema.space? fullName = none) : (schema.prune r).space? fullName = none := by
  rw [Option.eq_none_iff_forall_ne_some] at h ⊢
  intro ns' hns'
  obtain ⟨hmem, rfl⟩ := (space?_eq_some_iff (wf.prune r)).1 hns'
  obtain ⟨ns, hns, rfl | rfl⟩ := exists_of_mem_spaces_prune hmem
  · exact h ns' ((space?_eq_some_iff wf).2 ⟨hns, rfl⟩)
  · exact h ns ((space?_eq_some_iff wf).2 ⟨hns, rfl⟩)

/-- Pruning to a larger set first changes nothing. -/
theorem prune_prune {r' : ReachableNames} (h : r.Within r') (schema : Schema) :
    (schema.prune r').prune r = schema.prune r := by
  have hone : ∀ ns : Namespace, (ns.prune r').prune r = ns.prune r := by
    intro ns
    simp [Namespace.prune, Node.pruneAll_pruneAll h (h.names ns.fullName)]
  have hmap : ∀ nss : List Namespace,
      (((nss.filter fun ns => r'.leadsFrom ns.fullName).map (Namespace.prune r')).filter
        fun ns => r.leadsFrom ns.fullName).map (Namespace.prune r) =
        (nss.filter fun ns => r.leadsFrom ns.fullName).map (Namespace.prune r) := by
    intro nss
    induction nss with
    | nil => rfl
    | cons ns rest ih =>
      by_cases hlead : r.leadsFrom ns.fullName = true
      · have hlead' := h.leadsFrom hlead
        have hfull : r.leadsFrom (ns.prune r').fullName = true := hlead
        simp [hlead, hlead', hfull, hone, ih]
      · by_cases hlead' : r'.leadsFrom ns.fullName = true
        · have hfull : ¬ r.leadsFrom (ns.prune r').fullName = true := hlead
          simp [hlead, hlead', hfull, ih]
        · simp [hlead, hlead', ih]
  exact congrArg Schema.mk (hmap schema.namespaces)

end Schema

end SchemaClosure
