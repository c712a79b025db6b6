import SchemaClosure.Proofs.Reach.Composition
import SchemaClosure.Proofs.Reach.Dangling
import SchemaClosure.Proofs.Schema.Reload

/-!
# Writing a filtered schema and loading it again

The resolver looks for a name from the inside out. In a schema with fewer types it cannot find anything
further inside, so a reference whose target is still there is found again (`referent?_of_fewer`). Hence a
pruned schema where no reference dangles is a loaded one (`Loaded.prune`), and what is written of it loads.

Main theorem `filterAll_reload`: for requests that name types only, the filtered schema comes back with the
same types, and filtering it again finds the same and removes nothing.
-/

namespace SchemaClosure

/-! ## Pruning with the types first -/

namespace Node

variable {r : ReachableNames} {required : List String}

/-- Pruning goes through the children of one kind, since what stays of a child is of its kind. -/
theorem pruneAll_kind {α : Type} {part? : Node → Option α} {toNode : α → Node}
    (h : ∀ node, ((part? node).map toNode).bind (prune r required) = ((node.prune r required).bind part?).map toNode)
    (nodes : List Node) :
    pruneAll r required ((nodes.filterMap part?).map toNode) =
      ((pruneAll r required nodes).filterMap part?).map toNode := by
  simp only [pruneAll_eq_filterMap, List.map_filterMap, List.filterMap_filterMap]
  exact congrArg (nodes.filterMap ·) (funext h)

theorem pruneAll_types (nodes : List Node) :
    pruneAll r required ((nodes.filterMap Node.type?).map Node.type) =
      ((pruneAll r required nodes).filterMap Node.type?).map Node.type := by
  refine pruneAll_kind (fun node => ?_) nodes
  rw [prune_bind_type?]
  cases node with
  | type t => by_cases ht : t.name ∈ required <;> simp [prune, ht, Node.type?, Option.filter]
  | space name fullName options children => rfl

theorem pruneAll_spaces (nodes : List Node) :
    pruneAll r required ((nodes.filterMap Node.space?).map Namespace.toNode) =
      ((pruneAll r required nodes).filterMap Node.space?).map Namespace.toNode := by
  refine pruneAll_kind (fun node => ?_) nodes
  cases node with
  | type t => by_cases ht : t.name ∈ required <;> simp [prune, ht, Node.space?]
  | space name fullName options children =>
    by_cases hname : name ∈ required
    · simp [prune, hname, Node.space?, Namespace.toNode]
    · by_cases hlead : r.leadsFrom fullName = true <;> simp [prune, hname, hlead, Node.space?, Namespace.toNode]

theorem pruneAll_sorted (nodes : List Node) :
    pruneAll r required (sorted nodes) = sorted (pruneAll r required nodes) := by
  rw [sorted, sorted, pruneAll_eq_filterMap, List.filterMap_append, ← pruneAll_eq_filterMap, ← pruneAll_eq_filterMap,
    pruneAll_types, pruneAll_spaces]

mutual

theorem prune_typesFirst (required : List String) (node : Node) :
    node.typesFirst.prune r required = (node.prune r required).map Node.typesFirst := by
  match node with
  | .type t => by_cases ht : t.name ∈ required <;> simp [Node.typesFirst, prune, ht]
  | .space name fullName options children =>
    have ih := pruneAll_allTypesFirst (r.names fullName) children
    by_cases hname : name ∈ required
    · simp [Node.typesFirst, prune, hname]
    · by_cases hlead : r.leadsFrom fullName = true
      · simp [Node.typesFirst, prune, hname, hlead, pruneAll_sorted, ih]
      · simp [Node.typesFirst, prune, hname, hlead]

theorem pruneAll_allTypesFirst (required : List String) (nodes : List Node) :
    pruneAll r required (allTypesFirst nodes) = allTypesFirst (pruneAll r required nodes) := by
  match nodes with
  | [] => rfl
  | node :: rest =>
    rw [allTypesFirst, pruneAll, pruneAll, prune_typesFirst required node,
      pruneAll_allTypesFirst required rest]
    cases node.prune r required <;> rfl

end

theorem message?_typesFirst (node : Node) : node.typesFirst.message? = node.message? := by
  cases node <;> rfl

end Node

theorem Schema.prune_typesFirst (schema : Schema) (r : ReachableNames) :
    schema.typesFirst.prune r = (schema.prune r).typesFirst := by
  simp [Schema.prune, Schema.typesFirst, Namespace.typesFirst, List.filter_map, Function.comp_def,
    Node.pruneAll_sorted, Node.pruneAll_allTypesFirst]

namespace Schema

variable {schema pruned : Schema} {requests : List Request} {r : ReachableNames}

/-! ## References in a smaller schema -/

/-- A name that led nowhere leads nowhere in a smaller schema. -/
theorem addressed?_eq_none_of_fewer {S T : Schema} (hsub : ∀ a, (T.type? a).isSome → (S.type? a).isSome)
    {fullName : String} (h : S.addressed? fullName = none) : T.addressed? fullName = none := by
  rw [Option.eq_none_iff_forall_ne_some] at h ⊢
  intro b hb
  obtain ⟨hcut, howner, hname, htype⟩ := addressed?_eq_some_iff.1 hb
  exact h b (addressed?_eq_some_iff.2 ⟨hcut, howner, hname, hsub b htype⟩)

theorem addressed?_of_fewer {S T : Schema} {fullName : String} {b : TypeAddress}
    (h : S.addressed? fullName = some b) (hb : (T.type? b).isSome) : T.addressed? fullName = some b := by
  obtain ⟨hcut, howner, hname, -⟩ := addressed?_eq_some_iff.1 h
  exact addressed?_eq_some_iff.2 ⟨hcut, howner, hname, hb⟩

/-- **A reference whose target is still there** is found again in a smaller schema. -/
theorem referent?_of_fewer {S T : Schema} (hsub : ∀ a, (T.type? a).isSome → (S.type? a).isSome)
    {scope typeName : String} {b : TypeAddress} (h : S.referent? scope typeName = some b)
    (hb : (T.type? b).isSome) : T.referent? scope typeName = some b := by
  unfold referent? at h ⊢
  split at h
  · exact addressed?_of_fewer h hb
  · obtain ⟨inner, name, outer, hsplit, hname, hinner⟩ := List.findSome?_eq_some_iff.1 h
    refine List.findSome?_eq_some_iff.2 ⟨inner, name, outer, hsplit, addressed?_of_fewer hname hb, ?_⟩
    exact fun candidate hcandidate => addressed?_eq_none_of_fewer hsub (hinner candidate hcandidate)

/-! ## Pruned schemas as loaded ones -/

theorem Merged.prune (h : schema.Merged) (r : ReachableNames) : (schema.prune r).Merged := by
  have hcons := h.toConsistent.prune r
  refine ⟨hcons.names_nodup, hcons.top_fullName, fun ns' hns' => ?_⟩
  obtain ⟨ns, hns, rfl | rfl⟩ := exists_of_mem_spaces_prune hns'
  · exact h.sound ns' hns
  · have hsound := h.sound ns hns
    refine ⟨hcons.children_nodup _ hns', hcons.below_fullName _ hns', ?_, ?_, hsound.options⟩
    · exact fun t ht => hsound.owner t (mem_types_prune.1 ht).1
    · exact fun t ht => hsound.canonical t (mem_types_prune.1 ht).1

/-- A pruned schema where no reference dangles is a loaded one. -/
theorem Loaded.prune (h : schema.Loaded) (hdot : schema.DotFree) (hintact : (schema.prune r).Intact) :
    (schema.prune r).Loaded := by
  have wf : schema.WellFormed := ⟨h.toConsistent, hdot⟩
  have hfewer : ∀ a, ((schema.prune r).type? a).isSome → (schema.type? a).isSome := by
    intro a ha
    obtain ⟨t, ht⟩ := Option.isSome_iff_exists.1 ha
    rw [((type?_prune_eq_some_iff wf).1 ht).1]
    rfl
  refine ⟨h.toMerged.prune r, fun t ht => ?_⟩
  have hresolves := h.resolves t ((types_prune_sublist schema r).subset ht)
  have hreferent : ∀ f ∈ t.fields, builtinTypes.contains f.typeName = false →
      (schema.prune r).referent? t.owner f.typeName = schema.referent? t.owner f.typeName := by
    intro f hf hbuiltin
    obtain ⟨b, hb, hresolved⟩ := hresolves.referent? hf hbuiltin
    rw [hb]
    exact referent?_of_fewer hfewer hb (hintact t ht f hf b hresolved)
  constructor
  · intro f hf
    have hsame : (schema.prune r).resolveField t.owner f = schema.resolveField t.owner f := by
      unfold resolveField
      cases hbuiltin : builtinTypes.contains f.typeName with
      | true => rfl
      | false => rw [hreferent f hf hbuiltin]
    exact hsame.trans (hresolves.resolved f hf)
  · intro f hf
    have hresolvable := hresolves.resolvable f hf
    unfold isUnresolvable at hresolvable ⊢
    cases hbuiltin : builtinTypes.contains f.typeName with
    | true => rfl
    | false =>
      rw [hreferent f hf hbuiltin]
      rwa [hbuiltin] at hresolvable

/-! ## Walking with the types first -/

/-- Frames for the same name in the same namespace. -/
def SameHome (schema : Schema) (f : Frame schema) (g : Frame schema.typesFirst) : Prop :=
  g.home = f.home.typesFirst ∧ g.name = f.name

theorem node?_of_sameHome (h : schema.Consistent) {f : Frame schema} {g : Frame schema.typesFirst}
    (hfg : schema.SameHome f g) : g.node? = f.node?.map Node.typesFirst := by
  obtain ⟨hhome, hname⟩ := hfg
  rw [Frame.node?, hhome, hname, Namespace.child?_typesFirst (h.children_nodup _ f.home_mem)]
  rfl

theorem matching_typesFirst (h : schema.Consistent) : Matching (schema.SameHome) where
  address := by
    rintro f g ⟨hhome, hname⟩
    rw [Frame.address, Frame.address, hhome, hname]
    rfl
  node hfg := by rw [node?_of_sameHome h hfg, Option.isSome_map]
  message := by
    intro f g hfg
    rw [Frame.message?, Frame.message?, node?_of_sameHome h hfg]
    cases f.node? with
    | none => rfl
    | some node => exact (Node.message?_typesFirst node).symm
  reference := by
    intro f g t b _ _ _
    cases hspace : schema.space? b.owner with
    | none =>
      have hspace' : schema.typesFirst.space? b.owner = none := by rw [space?_typesFirst h, hspace]; rfl
      rw [Frame.of?_eq_none_iff.2 hspace, Frame.of?_eq_none_iff.2 hspace']
      exact .none
    | some ns =>
      have hspace' : schema.typesFirst.space? b.owner = some ns.typesFirst := by
        rw [space?_typesFirst h, hspace]
        rfl
      rw [Frame.of?_of_space? hspace, Frame.of?_of_space? hspace']
      exact .some ⟨rfl, rfl⟩

theorem top?_typesFirst (schema : Schema) (name : String) :
    schema.typesFirst.top? name = (schema.top? name).map Namespace.typesFirst := by
  rw [top?, typesFirst, List.find?_map]
  rfl

theorem forall₂_entries_typesFirst (request : Request) :
    List.Forall₂ schema.SameHome (schema.entries request) (schema.typesFirst.entries request) := by
  cases htop : schema.top? request.owner with
  | none =>
    have htop' : schema.typesFirst.top? request.owner = none := by rw [top?_typesFirst, htop]; rfl
    rw [entries_of_top?_eq_none htop, entries_of_top?_eq_none htop']
    exact .nil
  | some ns =>
    have htop' : schema.typesFirst.top? request.owner = some ns.typesFirst := by
      rw [top?_typesFirst, htop]
      rfl
    rw [entries_of_top? htop, entries_of_top? htop', List.forall₂_map_left_iff, List.forall₂_map_right_iff,
      List.forall₂_same]
    exact fun name _ => ⟨rfl, rfl⟩

/-- A filter does not depend on the order of types and namespaces. -/
theorem filterAll_typesFirst (hcons : schema.Consistent)
    (h : schema.filterAll requests = .ok (r, pruned)) :
    schema.typesFirst.filterAll requests = .ok (r, pruned.typesFirst) := by
  obtain ⟨s, hwalk, hs, hpruned⟩ := filterAll_eq_ok_iff.1 h
  refine filterAll_eq_ok_iff.2 ⟨s, hwalk.transfer (matching_typesFirst hcons) ?_, hs, ?_⟩
  · have hsame : List.Forall₂ (fun a b : Request => a = b) requests requests :=
      List.forall₂_same.2 fun _ _ => rfl
    refine List.rel_flatMap hsame ?_
    rintro request _ rfl
    exact forall₂_entries_typesFirst request
  · rw [hpruned, prune_typesFirst]

/-! ## Filtering, writing and loading -/

/-- Whatever is requested from a top-level namespace is a type there. -/
def NamesTypes (schema : Schema) (requests : List Request) : Prop :=
  ∀ request ∈ requests, ∀ ns, schema.top? request.owner = some ns →
    ∀ name ∈ request.typeNames, ∃ t, ns.child? name = some (.type t)

instance (schema : Schema) (requests : List Request) : Decidable (schema.NamesTypes requests) :=
  decidable_of_iff (∀ request ∈ requests, ∀ ns ∈ schema.top? request.owner, ∀ name ∈ request.typeNames,
    ((ns.child? name).bind Node.type?).isSome) <| by
    simp [NamesTypes, Option.isSome_iff_exists, Option.bind_eq_some_iff, Node.type?_eq_some_iff]

/-- Requests for types keep no namespace whole. -/
theorem not_keptWhole_of_namesTypes (hcons : schema.Consistent) (htypes : schema.NamesTypes requests)
    (ns : Namespace) : ¬ schema.KeptWhole requests ns := by
  intro h
  induction h with
  | @requested request ns child hrequest hns howner hchild hname =>
    have htop := (top?_eq_some_iff hcons).2 ⟨hns, howner⟩
    obtain ⟨t, ht⟩ := htypes request hrequest ns htop child.name hname
    have hnodup := hcons.children_nodup ns (mem_spaces_of_mem_namespaces hns)
    rw [Namespace.child?_space hnodup hchild] at ht
    cases ht
  | inside _ _ ih => exact ih

/-- The type at the address of a type is this type. -/
theorem Loaded.type?_address (h : schema.Loaded) (hdot : schema.DotFree) {t : TypeDecl}
    (ht : t ∈ schema.types) : schema.type? t.address = some t :=
  (type?_eq_some_iff_address ⟨h.toConsistent, hdot⟩ h.owned).2 ⟨ht, rfl⟩

/-- **A filtered schema comes back**: for requests that name types only, what is written of it loads, with
the types that stayed, in their order and with their references, and filtering it again for the same
requests finds the same and removes nothing. -/
theorem filterAll_reload {documents : List SchemaDocument} (hload : ofDocuments documents = .ok schema)
    (hdot : schema.DotFree) (htypes : schema.NamesTypes requests)
    (h : schema.filterAll requests = .ok (r, pruned)) (source : String) :
    ∃ reloaded, pruned.reload source = .ok reloaded ∧ reloaded.types = pruned.types ∧
      pruned.types.Sublist schema.types ∧ (∀ t ∈ reloaded.types, schema.type? t.address = some t) ∧
      reloaded.filterAll requests = .ok (r, reloaded) := by
  have hl := loaded_of_ofDocuments hload
  have wf : schema.WellFormed := ⟨hl.toConsistent, hdot⟩
  have hintact : pruned.Intact := intact_of_keptWhole hl wf h fun ns hns =>
    absurd hns (not_keptWhole_of_namesTypes hl.toConsistent htypes ns)
  have hagain : pruned.filterAll requests = .ok (r, pruned) := by
    obtain ⟨s, -, rfl, rfl⟩ := filterAll_eq_ok_iff.1 h
    exact filterAll_prune wf h (.refl _)
  obtain ⟨s, -, rfl, rfl⟩ := filterAll_eq_ok_iff.1 h
  have hpruned : (schema.prune s.reachable).Loaded := hl.prune hdot hintact
  have hsub := types_prune_sublist schema s.reachable
  refine ⟨(schema.prune s.reachable).typesFirst, hpruned.reload source, types_typesFirst _, hsub, ?_, ?_⟩
  · intro t ht
    rw [types_typesFirst] at ht
    exact hl.type?_address hdot (hsub.subset ht)
  · exact filterAll_typesFirst hpruned.toConsistent hagain

/-! ### A schema in two documents -/

/-- Entries of administrators, in a nested namespace that is declared before the types around it. -/
def adminDocument : SchemaDocument where
  source := "admin"
  content := [(.text "namespaces", .record [("shop", .record [
    ("namespaces", .record [("admin", .record [("types", .record [
      ("Entry", .record [("fields", .list none [
        .record [("name", .text "actor"), ("type", .text "Actor")]])])])])])])])]

/-- Orders with an entry each, and types that are not needed for them. -/
def orderDocument : SchemaDocument where
  source := "order"
  content := [(.text "namespaces", .record [("shop", .record [
    ("types", .record [
      ("Unused", .record []),
      ("Order", .record [("fields", .list none [
        .record [("name", .text "entry"), ("type", .text "admin.Entry")]])]),
      ("Actor", .record [])])])])]

/-- The schema that the two documents declare. -/
def store : Schema :=
  ⟨[⟨"shop", "shop", [], [
    .space "admin" "shop.admin" [] [
      sampleMessage "shop.admin" "Entry" [sampleField "actor" "Actor" (some ⟨"shop", "Actor"⟩)]],
    sampleMessage "shop" "Unused" [],
    sampleMessage "shop" "Order" [sampleField "entry" "admin.Entry" (some ⟨"shop.admin", "Entry"⟩)],
    sampleMessage "shop" "Actor" []]⟩]⟩

theorem ofDocuments_store : ofDocuments [adminDocument, orderDocument] = .ok store := by
  refine ofDocuments_eq_ok_iff.2 ⟨_, rfl, rfl, ?_⟩
  rw [types_eq_allTypesWithin]
  decide

theorem filterAll_reload_store :
    ofDocuments [adminDocument, orderDocument] = .ok store ∧ store.DotFree ∧
    store.NamesTypes [⟨"shop", ["Order"]⟩] ∧ ∃ pruned reloaded,
      store.filterAll [⟨"shop", ["Order"]⟩] =
        .ok ([("shop", ["Order", "Actor"]), ("shop.admin", ["Entry"])], pruned) ∧
      pruned.reload "again" = .ok reloaded ∧
      reloaded.filterAll [⟨"shop", ["Order"]⟩] =
        .ok ([("shop", ["Order", "Actor"]), ("shop.admin", ["Entry"])], reloaded) := by
  have hdot : store.DotFree := by decide
  have htypes : store.NamesTypes [⟨"shop", ["Order"]⟩] := by
    intro request hrequest ns htop name hname
    obtain rfl := List.mem_singleton.1 hrequest
    obtain rfl := List.mem_singleton.1 hname
    cases htop
    exact ⟨_, rfl⟩
  have h : store.filterAll [⟨"shop", ["Order"]⟩] = .ok (_, _) := filterAll_of_filterUpTo (n := 4) rfl
  obtain ⟨reloaded, hreload, -, -, -, hagain⟩ := filterAll_reload ofDocuments_store hdot htypes h "again"
  exact ⟨ofDocuments_store, hdot, htypes, _, reloaded, h, hreload, hagain⟩

end Schema

end SchemaClosure
