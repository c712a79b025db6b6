import SchemaClosure.Proofs.Schema.Declaration
import SchemaClosure.Proofs.Schema.MapTypes

/-!
# What loading yields

Every step of the loader keeps a namespace sound (`Namespace.Grows`): its children have distinct names,
full names continue each other, and its types are canonical and know where they stand. Hence a schema that
was loaded is consistent, and its references are what the resolver finds in it (`loaded_of_ofDocuments`).
-/

namespace SchemaClosure

/-! ## Keys of mappings -/

/-- No two keys are one and the same. -/
def Mapping.Distinct (m : Mapping) : Prop := (m.map Prod.fst).Pairwise fun a b => a.same b = false

namespace Mapping

theorem keys_put (key : Scalar) (value : Value) (m : Mapping) : (m.put key value).map Prod.fst =
    if (m.map Prod.fst).any (·.same key) then m.map Prod.fst else m.map Prod.fst ++ [key] := by
  unfold put
  induction m with
  | nil => rfl
  | cons entry rest ih =>
    obtain ⟨k, v⟩ := entry
    by_cases h : k.same key
    · simp [Scalar.put, h]
    · simp only [Scalar.put, h, Bool.false_eq_true, if_false, List.map_cons, ih, List.any_cons,
        Bool.false_or]
      split <;> rfl

theorem Distinct.put {m : Mapping} (h : m.Distinct) (key : Scalar) (value : Value) :
    (m.put key value).Distinct := by
  unfold Distinct
  rw [keys_put]
  split
  · exact h
  · rename_i hnew
    refine List.pairwise_append.2 ⟨h, List.pairwise_singleton _ _, ?_⟩
    intro a ha b hb
    cases List.mem_singleton.1 hb
    simpa using fun hsame => hnew (List.any_eq_true.2 ⟨a, ha, hsame⟩)

theorem Distinct.update {m : Mapping} (h : m.Distinct) (news : Mapping) : (m.update news).Distinct := by
  unfold Mapping.update
  induction news generalizing m with
  | nil => exact h
  | cons entry rest ih => exact ih (h.put entry.1 entry.2)

theorem put_of_distinct {m : Mapping} {key : Scalar} {value : Value}
    (h : ∀ k ∈ m.map Prod.fst, k.same key = false) : m.put key value = m ++ [(key, value)] := by
  unfold put
  induction m with
  | nil => rfl
  | cons entry rest ih =>
    obtain ⟨k, v⟩ := entry
    have hk : k.same key = false := h k (by simp)
    simp [Scalar.put, hk, ih fun k' hk' => h k' (by simp at hk' ⊢; exact .inr hk')]

/-- Entries with new and distinct keys come behind those that are there. -/
theorem update_of_distinct {m news : Mapping} (h : (m ++ news).Distinct) : m.update news = m ++ news := by
  unfold Mapping.update
  induction news generalizing m with
  | nil => simp
  | cons entry rest ih =>
    obtain ⟨key, value⟩ := entry
    have hput : m.put key value = m ++ [(key, value)] := by
      apply put_of_distinct
      unfold Distinct at h
      rw [List.map_append, List.pairwise_append] at h
      exact fun k hk => h.2.2 k hk key (by simp)
    simp only [List.foldl_cons, hput]
    rw [ih (by simpa using h)]
    simp

end Mapping

/-! ## Sound namespaces -/

/-- What the loader sees to in a namespace, apart from what stands below it. -/
structure Namespace.Sound (ns : Namespace) : Prop where
  children_nodup : (ns.children.map Node.name).Nodup
  below_fullName : ∀ child ∈ ns.spaces, child.fullName = ns.fullName ++ "." ++ child.name
  owner : ∀ t ∈ ns.types, t.owner = ns.fullName
  canonical : ∀ t ∈ ns.types, t.Canonical
  options : ns.options.Distinct

/-- The namespace and all below it are sound. -/
def Namespace.AllSound (ns : Namespace) : Prop := ∀ inner ∈ ns.toNode.spaces, inner.Sound

/-- What a step of the loader makes of a namespace. -/
structure Namespace.Grows (ns ns' : Namespace) : Prop where
  name : ns'.name = ns.name
  fullName : ns'.fullName = ns.fullName
  sound : ns.AllSound → ns'.AllSound

namespace Node

theorem mem_put {child node : Node} {nodes : List Node} (h : node ∈ put child nodes) :
    node = child ∨ node ∈ nodes := by
  induction nodes with
  | nil => simpa [put] using h
  | cons first rest ih =>
    simp only [put] at h
    split at h
    · rcases List.mem_cons.1 h with h | h
      · exact .inl h
      · exact .inr (List.mem_cons_of_mem _ h)
    · rcases List.mem_cons.1 h with h | h
      · exact .inr (h ▸ List.mem_cons_self)
      · exact (ih h).imp_right (List.mem_cons_of_mem _)

theorem names_put (child : Node) (nodes : List Node) : (put child nodes).map Node.name =
    if child.name ∈ nodes.map Node.name then nodes.map Node.name
    else nodes.map Node.name ++ [child.name] := by
  induction nodes with
  | nil => rfl
  | cons node rest ih =>
    by_cases h : node.name = child.name
    · simp [put, h]
    · simp only [put, h, if_false, List.map_cons, ih, List.mem_cons, Ne.symm h, false_or]
      split <;> rfl

end Node

namespace Namespace

theorem Grows.refl (ns : Namespace) : ns.Grows ns := ⟨rfl, rfl, id⟩

theorem Grows.trans {a b c : Namespace} (hab : a.Grows b) (hbc : b.Grows c) : a.Grows c :=
  ⟨hbc.name.trans hab.name, hbc.fullName.trans hab.fullName, fun h => hbc.sound (hab.sound h)⟩

theorem allSound_iff {ns : Namespace} : ns.AllSound ↔ ns.Sound ∧ ∀ child ∈ ns.spaces, child.AllSound := by
  unfold AllSound
  rw [Node.spaces_toNode]
  constructor
  · intro h
    refine ⟨h ns List.mem_cons_self, fun child hchild inner hinner => h inner (List.mem_cons_of_mem _ ?_)⟩
    exact Node.mem_allSpaces_iff.2 ⟨_, mem_spaces.1 hchild, hinner⟩
  · rintro ⟨hself, hbelow⟩ inner hinner
    rcases List.mem_cons.1 hinner with rfl | hinner
    · exact hself
    · obtain ⟨child, hchild, hinner⟩ := Node.mem_allSpaces_iff_toNode.1 hinner
      exact hbelow child (mem_spaces.2 hchild) inner hinner

theorem allSound_empty (name fullName : String) : (empty name fullName).AllSound := by
  refine allSound_iff.2 ⟨⟨List.nodup_nil, ?_, ?_, ?_, List.Pairwise.nil⟩, ?_⟩ <;>
    simp [empty, spaces, types]

theorem Sound.names_add {ns : Namespace} (h : ns.Sound) (child : Node) :
    ((ns.add child).children.map Node.name).Nodup := by
  rw [add, Node.names_put]
  exact nodup_put h.children_nodup _

theorem AllSound.add_type {ns : Namespace} (h : ns.AllSound) {t : TypeDecl}
    (howner : t.owner = ns.fullName) (hcanonical : t.Canonical) : (ns.add (.type t)).AllSound := by
  obtain ⟨hself, hbelow⟩ := allSound_iff.1 h
  have hspaces : ∀ child ∈ (ns.add (.type t)).spaces, child ∈ ns.spaces := by
    intro child hchild
    rcases Node.mem_put (mem_spaces.1 hchild) with h | h
    · cases h
    · exact mem_spaces.2 h
  have htypes : ∀ u ∈ (ns.add (.type t)).types, u = t ∨ u ∈ ns.types := by
    intro u hu
    rcases Node.mem_put (mem_types.1 hu) with h | h
    · exact .inl (Node.type.inj h)
    · exact .inr (mem_types.2 h)
  refine allSound_iff.2 ⟨⟨hself.names_add _, ?_, ?_, ?_, hself.options⟩, ?_⟩
  · exact fun child hchild => hself.below_fullName child (hspaces child hchild)
  · intro u hu
    rcases htypes u hu with rfl | hu
    · exact howner
    · exact hself.owner u hu
  · intro u hu
    rcases htypes u hu with rfl | hu
    · exact hcanonical
    · exact hself.canonical u hu
  · exact fun child hchild => hbelow child (hspaces child hchild)

theorem AllSound.add_space {ns child : Namespace} (h : ns.AllSound) (hchild : child.AllSound)
    (hfull : child.fullName = ns.fullName ++ "." ++ child.name) : (ns.add child.toNode).AllSound := by
  obtain ⟨hself, hbelow⟩ := allSound_iff.1 h
  have hspaces : ∀ inner ∈ (ns.add child.toNode).spaces, inner = child ∨ inner ∈ ns.spaces := by
    intro inner hinner
    rcases Node.mem_put (mem_spaces.1 hinner) with h | h
    · exact .inl (toNode_inj h)
    · exact .inr (mem_spaces.2 h)
  have htypes : ∀ t ∈ (ns.add child.toNode).types, t ∈ ns.types := by
    intro t ht
    rcases Node.mem_put (mem_types.1 ht) with h | h
    · cases h
    · exact mem_types.2 h
  refine allSound_iff.2 ⟨⟨hself.names_add _, ?_, ?_, ?_, hself.options⟩, ?_⟩
  · intro inner hinner
    rcases hspaces inner hinner with rfl | hinner
    · exact hfull
    · exact hself.below_fullName inner hinner
  · exact fun t ht => hself.owner t (htypes t ht)
  · exact fun t ht => hself.canonical t (htypes t ht)
  · intro inner hinner
    rcases hspaces inner hinner with rfl | hinner
    · exact hchild
    · exact hbelow inner hinner

/-! ## Steps of the loader -/

theorem addTypes_grows {source owner : String} {content : Mapping} : ∀ {ns ns' : Namespace},
    addTypes source ns owner content = .ok ns' → ns.fullName = owner → ns.Grows ns' := by
  induction content with
  | nil =>
    intro ns ns' h _
    cases h
    exact .refl _
  | cons entry rest ih =>
    intro ns ns' h howner
    obtain ⟨key, definition⟩ := entry
    simp only [addTypes, bind_eq_ok_iff] at h
    obtain ⟨name, -, h⟩ := h
    split at h
    · cases h
    · simp only [bind_eq_ok_iff] at h
      obtain ⟨t, ht, h⟩ := h
      obtain ⟨hcanonical, -, hown⟩ := TypeDecl.canonical_of_parse ht
      have hadd : ns.Grows (ns.add (.type t)) :=
        ⟨rfl, rfl, fun hsound => hsound.add_type (hown.trans howner.symm) hcanonical⟩
      exact hadd.trans (ih h howner)

theorem updateOptions_grows (ns : Namespace) (options : Mapping) :
    ns.Grows { ns with options := ns.options.update options } := by
  refine ⟨rfl, rfl, fun hsound => ?_⟩
  obtain ⟨hself, hbelow⟩ := allSound_iff.1 hsound
  exact allSound_iff.2 ⟨{ hself with options := hself.options.update options }, hbelow⟩

theorem mergeOwn_grows {source fullName : String} {content : Mapping} {ns ns' : Namespace}
    (h : mergeOwn source ns fullName content = .ok ns') (hfull : ns.fullName = fullName) :
    ns.Grows ns' := by
  simp only [mergeOwn, bind_eq_ok_iff] at h
  obtain ⟨options, -, types, -, h⟩ := h
  exact (ns.updateOptions_grows options).trans (addTypes_grows h hfull)

/-- A way of merging under which namespaces of the given full name grow. -/
def Merging.Growing (merging : Merging) : Prop :=
  ∀ ⦃fullName : String⦄ ⦃ns ns' : Namespace⦄ ⦃v : Value⦄, merging fullName ns v = .ok ns' →
    ns.fullName = fullName → ns.Grows ns'

/-- What a nested declaration is merged into: the child of its name, or a new namespace. -/
theorem start_of_child? {ns : Namespace} (hsound : ns.AllSound) {fullName : String}
    (hfull : ns.fullName = fullName) (name : String) :
    let start := ((ns.child? name).bind Node.space?).getD (empty name s!"{fullName}.{name}")
    start.AllSound ∧ start.name = name ∧ start.fullName = s!"{fullName}.{name}" := by
  cases h : (ns.child? name).bind Node.space? with
  | none => exact ⟨allSound_empty _ _, rfl, rfl⟩
  | some child =>
    obtain ⟨node, hnode, hchild⟩ := Option.bind_eq_some_iff.1 h
    obtain ⟨hself, hbelow⟩ := allSound_iff.1 hsound
    obtain ⟨hmem, hname⟩ := (child?_eq_some_iff hself.children_nodup).1 hnode
    rw [← toNode_of_space? hchild] at hmem hname
    have hspace := mem_spaces.2 hmem
    refine ⟨hbelow child hspace, hname, ?_⟩
    rw [Option.getD_some, hself.below_fullName child hspace, hfull, ← hname]
    rfl

/-- Nothing is merged under a name where a type stands. -/
theorem mergeChild_of_type {source fullName name : String} {ns : Namespace} {key : Scalar}
    {merging : String → Namespace → Except LoadError Namespace} (hname : key.label? = some name)
    {t : TypeDecl} (h : ns.child? name = some (.type t)) :
    mergeChild source fullName ns key merging = .error (.collidesWithType s!"{fullName}.{name}" source) := by
  rw [mergeChild, Scalar.label_eq_ok_iff.2 hname]
  dsimp only [bind, Except.bind]
  rw [h]
  rfl

/-- Under any other name it is merged into the namespace that is there, or into a new one. -/
theorem mergeChild_of_not_type {source fullName name : String} {ns : Namespace} {key : Scalar}
    {merging : String → Namespace → Except LoadError Namespace} (hname : key.label? = some name)
    (h : ∀ t, ns.child? name ≠ some (.type t)) :
    mergeChild source fullName ns key merging = merging s!"{fullName}.{name}"
      (((ns.child? name).bind Node.space?).getD (empty name s!"{fullName}.{name}")) >>= fun new =>
        .ok (ns.add new.toNode) := by
  rw [mergeChild, Scalar.label_eq_ok_iff.2 hname]
  dsimp only [bind, Except.bind]
  cases hchild : ns.child? name with
  | none => rfl
  | some node =>
    cases node with
    | type t => exact absurd hchild (h t)
    | space => rfl

theorem mergeChild_grows {source fullName : String} {ns ns' : Namespace} {key : Scalar}
    {merging : String → Namespace → Except LoadError Namespace}
    (hmerging : ∀ ⦃childName : String⦄ ⦃start start' : Namespace⦄, merging childName start = .ok start' →
      start.fullName = childName → start.Grows start')
    (h : mergeChild source fullName ns key merging = .ok ns') (hfull : ns.fullName = fullName) :
    ns.Grows ns' := by
  simp only [mergeChild, bind_eq_ok_iff] at h
  obtain ⟨name, -, h⟩ := h
  split at h
  · cases h
  · simp only [bind_eq_ok_iff] at h
    obtain ⟨new, hnew, h⟩ := h
    cases h
    refine ⟨rfl, rfl, fun hsound => ?_⟩
    obtain ⟨hallStart, hname, hfullStart⟩ := start_of_child? hsound hfull name
    have hgrows := hmerging hnew hfullStart
    refine hsound.add_space (hgrows.sound hallStart) ?_
    rw [hgrows.fullName, hfullStart, hgrows.name, hname, hfull]
    rfl

theorem mergeEach_grows {merging : Merging} (hmerging : merging.Growing) {source fullName : String}
    {entries : Mapping} : ∀ {ns ns' : Namespace}, mergeEach merging source fullName ns entries = .ok ns' →
      ns.fullName = fullName → ns.Grows ns' := by
  unfold mergeEach
  induction entries with
  | nil =>
    intro ns ns' h _
    cases h
    exact .refl _
  | cons entry rest ih =>
    intro ns ns' h hfull
    simp only [List.foldlM_cons, bind_eq_ok_iff] at h
    obtain ⟨inner, hinner, h⟩ := h
    have hgrows := mergeChild_grows (fun _ _ _ h hfull => hmerging h hfull) hinner hfull
    exact hgrows.trans (ih h (hgrows.fullName.trans hfull))

/-- An entry under another key is passed over when the nested namespaces are looked for. -/
theorem mergeSection_of_not_same {beyond : Merging} {source fullName : String} {ns : Namespace}
    {key : Scalar} (h : key.same (.text "namespaces") = false) (v : Value) (rest : List (Scalar × Value)) :
    mergeSection beyond source fullName ns ((key, v) :: rest) =
      mergeSection beyond source fullName ns rest := by
  cases v <;> simp [mergeSection, h]

mutual

theorem mergeWith_grows {beyond : Merging} (hbeyond : beyond.Growing) {source fullName : String}
    {ns ns' : Namespace} (v : Value) (h : mergeWith beyond source fullName ns v = .ok ns')
    (hfull : ns.fullName = fullName) : ns.Grows ns' := by
  match v with
  | .mapping _ content =>
    simp only [mergeWith, bind_eq_ok_iff] at h
    obtain ⟨own, hown, h⟩ := h
    have hgrows := mergeOwn_grows hown hfull
    exact hgrows.trans (mergeSection_grows hbeyond content h (hgrows.fullName.trans hfull))
  | .knot mark body => exact hbeyond h hfull
  | .scalar _ | .list _ _ | .set _ _ | .again _ =>
    simp only [mergeWith] at h
    split at h
    · cases h
      exact .refl _
    · cases h

theorem mergeSection_grows {beyond : Merging} (hbeyond : beyond.Growing) {source fullName : String}
    {ns ns' : Namespace} (content : List (Scalar × Value))
    (h : mergeSection beyond source fullName ns content = .ok ns') (hfull : ns.fullName = fullName) :
    ns.Grows ns' := by
  match content with
  | [] =>
    cases h
    exact .refl _
  | (key, v) :: rest =>
    by_cases hkey : key.same (.text "namespaces") = true
    · match v with
      | .mapping _ nested =>
        simp only [mergeSection, hkey, if_true] at h
        exact mergeChildren_grows hbeyond nested h hfull
      | .knot mark body =>
        simp only [mergeSection, hkey, if_true, bind_eq_ok_iff] at h
        obtain ⟨nested, -, h⟩ := h
        exact mergeEach_grows hbeyond h hfull
      | .scalar _ | .list _ _ | .set _ _ | .again _ =>
        simp only [mergeSection, hkey, if_true] at h
        split at h
        · cases h
          exact .refl _
        · cases h
    · rw [mergeSection_of_not_same (by simpa using hkey)] at h
      exact mergeSection_grows hbeyond rest h hfull

theorem mergeChildren_grows {beyond : Merging} (hbeyond : beyond.Growing) {source fullName : String}
    {ns ns' : Namespace} (content : List (Scalar × Value))
    (h : mergeChildren beyond source fullName ns content = .ok ns') (hfull : ns.fullName = fullName) :
    ns.Grows ns' := by
  match content with
  | [] =>
    cases h
    exact .refl _
  | (key, v) :: rest =>
    simp only [mergeChildren, bind_eq_ok_iff] at h
    obtain ⟨inner, hinner, h⟩ := h
    have hgrows := mergeChild_grows (fun _ _ _ h hfull => mergeWith_grows hbeyond v h hfull) hinner hfull
    exact hgrows.trans (mergeChildren_grows hbeyond rest h (hgrows.fullName.trans hfull))

end

theorem mergeUpTo_growing (source : String) (n : Nat) : (mergeUpTo source n).Growing := by
  induction n with
  | zero =>
    intro fullName ns ns' v h hfull
    exact mergeWith_grows (fun _ _ _ _ h _ => by cases h) v h hfull
  | succ n ih =>
    intro fullName ns ns' v h hfull
    exact mergeWith_grows ih v.unrolled h hfull

theorem merge_grows {source fullName : String} {ns ns' : Namespace} {v : Value}
    (h : merge source fullName ns v = .ok ns') (hfull : ns.fullName = fullName) : ns.Grows ns' :=
  mergeUpTo_growing source deepest h hfull

/-! ## Documents -/

/-- Namespaces are put among each other as their nodes are among nodes. -/
theorem map_toNode_put (new : Namespace) (namespaces : List Namespace) :
    (put new namespaces).map toNode = Node.put new.toNode (namespaces.map toNode) := by
  induction namespaces with
  | nil => rfl
  | cons ns rest ih =>
    rw [put, List.map_cons, Node.put, name_toNode, name_toNode, ← ih]
    split <;> rfl

theorem mem_put {new ns : Namespace} {namespaces : List Namespace} (h : ns ∈ put new namespaces) :
    ns = new ∨ ns ∈ namespaces := by
  have hnode : ns.toNode ∈ Node.put new.toNode (namespaces.map toNode) := by
    rw [← map_toNode_put]
    exact List.mem_map_of_mem h
  rcases Node.mem_put hnode with hnew | hold
  · exact .inl (toNode_inj hnew)
  · obtain ⟨other, hother, hsame⟩ := List.mem_map.1 hold
    exact .inr (toNode_inj hsame ▸ hother)

theorem names_put (new : Namespace) (namespaces : List Namespace) :
    (put new namespaces).map Namespace.name =
      if new.name ∈ namespaces.map Namespace.name then namespaces.map Namespace.name
      else namespaces.map Namespace.name ++ [new.name] := by
  have h := Node.names_put new.toNode (namespaces.map toNode)
  rw [← map_toNode_put, List.map_map, List.map_map] at h
  exact h

end Namespace

namespace Schema

/-- What merging documents yields: names in one place are distinct, and all namespaces are sound. -/
structure Merged (schema : Schema) : Prop where
  names_nodup : (schema.namespaces.map Namespace.name).Nodup
  top_fullName : ∀ ns ∈ schema.namespaces, ns.fullName = ns.name
  sound : ∀ ns ∈ schema.spaces, ns.Sound

theorem allSound_of_mem {schema : Schema} (h : ∀ ns ∈ schema.spaces, ns.Sound) {ns : Namespace}
    (hns : ns ∈ schema.namespaces) : ns.AllSound :=
  fun inner hinner => h inner (Node.mem_allSpaces_iff.2 ⟨ns.toNode, List.mem_map_of_mem hns, hinner⟩)

theorem sound_of_allSound {schema : Schema} (h : ∀ ns ∈ schema.namespaces, ns.AllSound) :
    ∀ ns ∈ schema.spaces, ns.Sound := by
  intro inner hinner
  obtain ⟨node, hnode, hinner⟩ := Node.mem_allSpaces_iff.1 hinner
  obtain ⟨ns, hns, rfl⟩ := List.mem_map.1 hnode
  exact h ns hns inner hinner

theorem Merged.toConsistent {schema : Schema} (h : schema.Merged) : schema.Consistent where
  names_nodup := h.names_nodup
  top_fullName := h.top_fullName
  children_nodup ns hns := (h.sound ns hns).children_nodup
  below_fullName ns hns := (h.sound ns hns).below_fullName

theorem Merged.owned {schema : Schema} (h : schema.Merged) : schema.Owned :=
  fun ns hns => (h.sound ns hns).owner

theorem Merged.put {schema : Schema} (h : schema.Merged) {ns : Namespace} (hfull : ns.fullName = ns.name)
    (hsound : ns.AllSound) : (Schema.mk (Namespace.put ns schema.namespaces)).Merged := by
  refine ⟨?_, ?_, sound_of_allSound ?_⟩
  · rw [Namespace.names_put]
    exact nodup_put h.names_nodup _
  · intro other hother
    rcases Namespace.mem_put hother with rfl | hother
    · exact hfull
    · exact h.top_fullName other hother
  · intro other hother
    rcases Namespace.mem_put hother with rfl | hother
    · exact hsound
    · exact allSound_of_mem h.sound hother

/-- What a top-level declaration is merged into: the namespace that it continues, or a new one. -/
theorem Merged.start_of_continued? {schema : Schema} (h : schema.Merged) {key : Scalar}
    {source name : String} (hname : key.label source = .ok name) :
    let start := (schema.continued? key).getD (Namespace.empty name name)
    start.AllSound ∧ start.name = name ∧ start.fullName = name := by
  cases hc : schema.continued? key with
  | none => exact ⟨Namespace.allSound_empty _ _, rfl, rfl⟩
  | some ns =>
    unfold continued? at hc
    split at hc
    · cases hname
      obtain ⟨hmem, hns⟩ := (top?_eq_some_iff h.toConsistent).1 hc
      exact ⟨allSound_of_mem h.sound hmem, hns, (h.top_fullName ns hmem).trans hns⟩
    · cases hc

theorem Merged.mergeNamespaces {source : String} {entries : Mapping} : ∀ {schema schema' : Schema},
    schema.Merged → schema.mergeNamespaces source entries = .ok schema' → schema'.Merged := by
  induction entries with
  | nil =>
    intro schema schema' hmerged h
    cases h
    exact hmerged
  | cons entry rest ih =>
    intro schema schema' hmerged h
    obtain ⟨key, v⟩ := entry
    simp only [Schema.mergeNamespaces, bind_eq_ok_iff] at h
    obtain ⟨name, hname, ns, hns, h⟩ := h
    obtain ⟨hsound, hstart, hfull⟩ := hmerged.start_of_continued? hname
    have hgrows := Namespace.merge_grows hns hfull
    refine ih (hmerged.put ?_ (hgrows.sound hsound)) h
    rw [hgrows.fullName, hfull, hgrows.name, hstart]

theorem Merged.mergeDocument {schema schema' : Schema} {document : SchemaDocument}
    (hmerged : schema.Merged) (h : schema.mergeDocument document = .ok schema') : schema'.Merged := by
  simp only [Schema.mergeDocument] at h
  split at h
  · cases h
    exact hmerged
  · split at h
    · exact hmerged.mergeNamespaces h
    · cases h

theorem Merged.mergeAll {documents : List SchemaDocument} : ∀ {schema schema' : Schema},
    schema.Merged → schema.mergeAll documents = .ok schema' → schema'.Merged := by
  induction documents with
  | nil =>
    intro schema schema' hmerged h
    cases h
    exact hmerged
  | cons document rest ih =>
    intro schema schema' hmerged h
    simp only [Schema.mergeAll, bind_eq_ok_iff] at h
    obtain ⟨inner, hinner, h⟩ := h
    exact ih (hmerged.mergeDocument hinner) h

/-! ## References -/

/-- What names refer to depends only on the addresses where types are. -/
theorem referent?_congr {S T : Schema} (h : ∀ a, (S.type? a).isSome = (T.type? a).isSome)
    (scope typeName : String) : S.referent? scope typeName = T.referent? scope typeName := by
  have haddressed : S.addressed? = T.addressed? := by
    funext fullName
    simp only [addressed?, h]
  unfold referent?
  rw [haddressed]

theorem resolveField_congr {S T : Schema} (h : ∀ a, (S.type? a).isSome = (T.type? a).isSome)
    (owner : String) (f : Field) : S.resolveField owner f = T.resolveField owner f := by
  unfold resolveField
  rw [referent?_congr h]

/-- Whether a field refers to nothing depends only on its type and on the addresses where types are. -/
theorem isUnresolvable_congr {S T : Schema} (h : ∀ a, (S.type? a).isSome = (T.type? a).isSome) (owner : String)
    {f f' : Field} (hf : f.typeName = f'.typeName) : S.isUnresolvable owner f = T.isUnresolvable owner f' := by
  unfold isUnresolvable
  rw [hf, referent?_congr h]

/-- A dotted name spells an address when both parts are there and a type is at it. -/
theorem addressed?_eq_some_iff {schema : Schema} {fullName : String} {b : TypeAddress} :
    schema.addressed? fullName = some b ↔ Text.cutLast? '.' fullName = some (b.owner, b.name) ∧
      b.owner.isEmpty = false ∧ b.name.isEmpty = false ∧ (schema.type? b).isSome := by
  unfold addressed?
  cases hcut : Text.cutLast? '.' fullName with
  | none => simp
  | some parts =>
    obtain ⟨owner, name⟩ := parts
    constructor
    · intro h
      dsimp only at h
      split at h
      · cases h
      · split at h
        · rename_i hne htype
          cases h
          rw [Bool.or_eq_true, not_or] at hne
          exact ⟨rfl, by simpa using hne.1, by simpa using hne.2, htype⟩
        · cases h
    · rintro ⟨hparts, howner, hname, htype⟩
      cases hparts
      simp [howner, hname, htype]

/-- A name refers to an address where there is a type. -/
theorem type?_of_referent? {schema : Schema} {scope typeName : String} {b : TypeAddress}
    (h : schema.referent? scope typeName = some b) : (schema.type? b).isSome := by
  unfold referent? at h
  split at h
  · exact (addressed?_eq_some_iff.1 h).2.2.2
  · obtain ⟨name, -, hname⟩ := List.exists_of_findSome?_eq_some h
    exact (addressed?_eq_some_iff.1 hname).2.2.2

/-- The references of a type are what the resolver finds, and it finds all that it looks for. -/
structure Resolves (schema : Schema) (t : TypeDecl) : Prop where
  resolved : ∀ f ∈ t.fields, schema.resolveField t.owner f = f
  resolvable : ∀ f ∈ t.fields, schema.isUnresolvable t.owner f = false

/-- What is not built in refers to something. -/
theorem Resolves.referent? {schema : Schema} {t : TypeDecl} (h : schema.Resolves t) {f : Field}
    (hf : f ∈ t.fields) (hbuiltin : builtinTypes.contains f.typeName = false) :
    ∃ b, schema.referent? t.owner f.typeName = some b ∧ f.resolved = some b := by
  have hresolvable := h.resolvable f hf
  have hresolved := congrArg Field.resolved (h.resolved f hf)
  simp only [isUnresolvable, resolveField, hbuiltin, Bool.not_false, Bool.true_and, Bool.false_eq_true,
    if_false] at hresolvable hresolved
  cases hb : schema.referent? t.owner f.typeName with
  | none =>
    rw [hb] at hresolvable
    cases hresolvable
  | some b => exact ⟨b, rfl, by rw [← hresolved, hb]⟩

/-- What loading documents yields: a merged schema where all references are resolved. -/
structure Loaded (schema : Schema) : Prop extends schema.Merged where
  resolves : ∀ t ∈ schema.types, schema.Resolves t

/-- In a loaded schema a reference leads to a type. -/
theorem Loaded.type?_of_resolved {schema : Schema} (h : schema.Loaded) {t : TypeDecl}
    (ht : t ∈ schema.types) {f : Field} (hf : f ∈ t.fields) {b : TypeAddress} (hb : f.resolved = some b) :
    (schema.type? b).isSome := by
  rw [← (h.resolves t ht).resolved f hf] at hb
  simp only [resolveField] at hb
  split at hb
  · cases hb
  · exact type?_of_referent? hb

/-- A change that keeps names, full names and owners leaves a merged schema merged. -/
theorem Merged.change {schema : Schema} (h : schema.Merged) {φ : Node → Node} {f : Namespace → Namespace}
    {g : TypeDecl → TypeDecl} (hchange : Node.Change φ f g) (hname : ∀ node, (φ node).name = node.name)
    (hfull : ∀ ns, (f ns).fullName = ns.fullName)
    (hoptions : ∀ ns, ns.options.Distinct → (f ns).options.Distinct)
    (howner : ∀ t, (g t).owner = t.owner) (hcanonical : ∀ t, t.Canonical → (g t).Canonical) :
    (Schema.mk (schema.namespaces.map f)).Merged := by
  refine ⟨?_, ?_, ?_⟩
  · have hnames : (schema.namespaces.map f).map Namespace.name = schema.namespaces.map Namespace.name := by
      rw [List.map_map]
      exact List.map_congr_left fun ns _ => hchange.space_name hname ns
    rw [hnames]
    exact h.names_nodup
  · intro ns' hns'
    obtain ⟨ns, hns, rfl⟩ := List.mem_map.1 hns'
    rw [hfull, hchange.space_name hname, h.top_fullName ns hns]
  · intro ns' hns'
    rw [hchange.schema_spaces] at hns'
    obtain ⟨ns, hns, rfl⟩ := List.mem_map.1 hns'
    have hsound := h.sound ns hns
    refine ⟨?_, ?_, ?_, ?_, hoptions ns hsound.options⟩
    · rw [hchange.names_children hname]
      exact hsound.children_nodup
    · intro child' hchild'
      rw [hchange.spaces] at hchild'
      obtain ⟨child, hchild, rfl⟩ := List.mem_map.1 hchild'
      rw [hfull, hfull, hchange.space_name hname, hsound.below_fullName child hchild]
    · intro t' ht'
      rw [hchange.types] at ht'
      obtain ⟨t, ht, rfl⟩ := List.mem_map.1 ht'
      rw [howner, hfull, hsound.owner t ht]
    · intro t' ht'
      rw [hchange.types] at ht'
      obtain ⟨t, ht, rfl⟩ := List.mem_map.1 ht'
      exact hcanonical t (hsound.canonical t ht)

theorem Merged.mapTypes {schema : Schema} (h : schema.Merged) {g : TypeDecl → TypeDecl}
    (hname : ∀ t, (g t).name = t.name) (howner : ∀ t, (g t).owner = t.owner)
    (hcanonical : ∀ t, t.Canonical → (g t).Canonical) : (schema.mapTypes g).Merged :=
  h.change Node.change_mapTypes (Node.name_mapTypes hname) (fun _ => rfl) (fun _ => id) howner hcanonical

theorem firstUnresolvable?_eq_none_iff {schema : Schema} : schema.firstUnresolvable? = none ↔
    ∀ t ∈ schema.types, ∀ f ∈ t.fields, schema.isUnresolvable t.owner f = false := by
  simp only [firstUnresolvable?, Option.map_eq_none_iff, List.find?_eq_none, fields, List.mem_flatMap,
    List.mem_map]
  constructor
  · intro h t ht f hf
    simpa using h (t, f) ⟨t, ht, f, hf, rfl⟩
  · rintro h _ ⟨t, ht, f, hf, rfl⟩
    simpa using h t ht f hf

/-- Documents load when they merge and nothing is unresolvable. -/
theorem ofDocuments_eq_ok_iff {documents : List SchemaDocument} {schema : Schema} :
    ofDocuments documents = .ok schema ↔ ∃ merged, mergeAll ⟨[]⟩ documents = .ok merged ∧
      merged.resolveAll = schema ∧
      ∀ t ∈ merged.types, ∀ f ∈ t.fields, merged.isUnresolvable t.owner f = false := by
  simp only [ofDocuments, bind_eq_ok_iff]
  refine exists_congr fun merged => and_congr_right fun _ => ?_
  rw [← firstUnresolvable?_eq_none_iff]
  cases hnone : merged.firstUnresolvable? with
  | none =>
    simp only [resolve, hnone, and_true]
    exact ⟨fun h => Except.ok.inj h, congrArg Except.ok⟩
  | some first => simp [resolve, hnone, throw, throwThe, MonadExceptOf.throw]

/-- Resolving a merged schema where nothing is unresolvable loads it. -/
theorem Merged.loaded_resolveAll {schema : Schema} (h : schema.Merged)
    (hresolvable : ∀ t ∈ schema.types, ∀ f ∈ t.fields, schema.isUnresolvable t.owner f = false) :
    schema.resolveAll.Loaded := by
  rw [resolveAll_eq_mapTypes]
  have hsome : ∀ a, ((schema.mapTypes schema.resolveType).type? a).isSome = (schema.type? a).isSome := by
    intro a
    rw [type?_mapTypes (g := schema.resolveType) (fun _ => rfl), Option.isSome_map]
  refine ⟨h.mapTypes (fun _ => rfl) (fun _ => rfl) fun t ht => ht.mapFields fun _ => ⟨rfl, rfl, rfl⟩, ?_⟩
  intro t' ht'
  rw [types_mapTypes] at ht'
  obtain ⟨t, ht, rfl⟩ := List.mem_map.1 ht'
  constructor
  · intro f' hf'
    obtain ⟨f, hf, rfl⟩ := List.mem_map.1 hf'
    rw [resolveField_congr hsome]
    rfl
  · intro f' hf'
    obtain ⟨f, hf, rfl⟩ := List.mem_map.1 hf'
    rw [isUnresolvable_congr hsome _ rfl]
    exact hresolvable t ht f hf

/-- **What documents declare** is consistent, with canonical types and resolved references. -/
theorem loaded_of_ofDocuments {documents : List SchemaDocument} {schema : Schema}
    (h : ofDocuments documents = .ok schema) : schema.Loaded := by
  obtain ⟨merged, hmerge, rfl, hresolvable⟩ := ofDocuments_eq_ok_iff.1 h
  have hempty : (Schema.mk []).Merged := ⟨List.nodup_nil, by simp, by simp [spaces, Node.allSpaces]⟩
  exact (hempty.mergeAll hmerge).loaded_resolveAll hresolvable

end Schema

end SchemaClosure
