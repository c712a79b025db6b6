import SchemaClosure.Proofs.Text.Dotted
import SchemaClosure.Reach.Walk

/-!
# Where namespaces and types stand

`Schema.At` says which namespace stands at a path of names, without looking anything up. In a
well-formed schema the full name of a namespace spells its path (`At.fullName_eq`), so that a full name
is an address: looking it up finds the namespace that has it and no other (`space?_eq_some_iff`), and no two
namespaces of the tree have the same one (`fullNames_distinct`).

A schema is only `Consistent` when names with dots are allowed. Looking up then still finds what stands
at the path of the pieces (`spaceAt?_eq_some_iff`), but that path need not be the one that was meant.
-/

namespace SchemaClosure

/-! ## Lists of distinct names -/

theorem find?_key_eq_some_iff {α : Type} {key : α → String} {l : List α} (h : (l.map key).Nodup)
    {name : String} {a : α} : l.find? (key · == name) = some a ↔ a ∈ l ∧ key a = name := by
  constructor
  · intro hf
    exact ⟨List.mem_of_find?_eq_some hf, by simpa using List.find?_some hf⟩
  · rintro ⟨hmem, rfl⟩
    induction l with
    | nil => cases hmem
    | cons b rest ih =>
      simp only [List.map_cons, List.nodup_cons, List.mem_map, not_exists, not_and] at h
      rcases List.mem_cons.1 hmem with rfl | hmem
      · simp
      · have hne : key b ≠ key a := fun e => h.1 a hmem e.symm
        simpa [hne] using ih h.2 hmem

/-! ## Children -/

theorem Node.type?_eq_some_iff {node : Node} {t : TypeDecl} : node.type? = some t ↔ node = .type t := by
  cases node <;> simp [Node.type?]

namespace Namespace

theorem mem_spaces {ns child : Namespace} : child ∈ ns.spaces ↔ child.toNode ∈ ns.children := by
  simp only [spaces, List.mem_filterMap]
  constructor
  · rintro ⟨node, hnode, h⟩
    rwa [toNode_of_space? h]
  · exact fun h => ⟨_, h, rfl⟩

theorem mem_types {ns : Namespace} {t : TypeDecl} : t ∈ ns.types ↔ .type t ∈ ns.children := by
  simp only [types, List.mem_filterMap, Node.type?_eq_some_iff, exists_eq_right]

@[simp] theorem name_toNode (ns : Namespace) : ns.toNode.name = ns.name := rfl

@[simp] theorem space?_toNode (ns : Namespace) : ns.toNode.space? = some ns := rfl

theorem toNode_inj {a b : Namespace} (h : a.toNode = b.toNode) : a = b :=
  Option.some.inj (congrArg Node.space? h)

theorem child?_eq_some_iff {ns : Namespace} (h : (ns.children.map Node.name).Nodup) {name : String}
    {node : Node} : ns.child? name = some node ↔ node ∈ ns.children ∧ node.name = name :=
  find?_key_eq_some_iff h

theorem child?_eq_none_iff {ns : Namespace} {name : String} :
    ns.child? name = none ↔ ∀ node ∈ ns.children, node.name ≠ name := by
  simp [child?]

theorem child?_space {ns child : Namespace} (h : (ns.children.map Node.name).Nodup)
    (hc : child ∈ ns.spaces) : ns.child? child.name = some child.toNode :=
  (child?_eq_some_iff h).2 ⟨mem_spaces.1 hc, rfl⟩

theorem descend?_concat (path : List String) (name : String) : ∀ ns : Namespace,
    ns.descend? (path ++ [name]) =
      (ns.descend? path).bind fun inner => (inner.child? name).bind Node.space? := by
  induction path with
  | nil =>
    intro ns
    cases h : (ns.child? name).bind Node.space? <;> simp [descend?, h]
  | cons first path ih =>
    intro ns
    cases h : (ns.child? first).bind Node.space? <;> simp [descend?, h, ih]

end Namespace

/-! ## Paths -/

/-- The namespace that stands at a path of names from the root. -/
inductive Schema.At (schema : Schema) : List String → Namespace → Prop
  | top {ns : Namespace} : ns ∈ schema.namespaces → Schema.At schema [ns.name] ns
  | child {path : List String} {ns child : Namespace} :
    Schema.At schema path ns → child ∈ ns.spaces → Schema.At schema (path ++ [child.name]) child

theorem Node.mem_allSpaces_iff_toNode {nodes : List Node} {ns : Namespace} :
    ns ∈ Node.allSpaces nodes ↔ ∃ child : Namespace, child.toNode ∈ nodes ∧ ns ∈ child.toNode.spaces := by
  rw [Node.mem_allSpaces_iff]
  constructor
  · rintro ⟨node, hnode, hns⟩
    cases node with
    | type t => cases hns
    | space name fullName options children => exact ⟨⟨name, fullName, options, children⟩, hnode, hns⟩
  · rintro ⟨child, hchild, hns⟩
    exact ⟨child.toNode, hchild, hns⟩

mutual

theorem Node.spaces_induction {P : Namespace → Prop}
    (below : ∀ ns, P ns → ∀ child ∈ ns.spaces, P child) (node : Node)
    (h : ∀ ns, node.space? = some ns → P ns) : ∀ ns ∈ node.spaces, P ns := by
  match node with
  | .type _ => simp [Node.spaces]
  | .space name fullName options children =>
    have hself : P ⟨name, fullName, options, children⟩ := h _ rfl
    intro ns hns
    rcases List.mem_cons.1 hns with rfl | hns
    · exact hself
    · refine Node.allSpaces_induction below children (fun child hchild inner hinner => ?_) ns hns
      refine below _ hself inner (Namespace.mem_spaces.2 ?_)
      rwa [Namespace.toNode_of_space? hinner]

theorem Node.allSpaces_induction {P : Namespace → Prop}
    (below : ∀ ns, P ns → ∀ child ∈ ns.spaces, P child) (nodes : List Node)
    (h : ∀ node ∈ nodes, ∀ ns, node.space? = some ns → P ns) : ∀ ns ∈ Node.allSpaces nodes, P ns := by
  match nodes with
  | [] => simp [Node.allSpaces]
  | node :: rest =>
    intro ns hns
    simp only [Node.allSpaces, List.mem_append] at hns
    rcases hns with hns | hns
    · exact Node.spaces_induction below node (h node (by simp)) ns hns
    · exact Node.allSpaces_induction below rest (fun node hnode => h node (by simp [hnode])) ns hns

end

namespace Schema

/-- What holds of the top-level namespaces and goes from a namespace to those that it holds, holds of
all namespaces. -/
theorem spaces_induction {schema : Schema} {P : Namespace → Prop}
    (top : ∀ ns ∈ schema.namespaces, P ns) (below : ∀ ns, P ns → ∀ child ∈ ns.spaces, P child) :
    ∀ ns ∈ schema.spaces, P ns := by
  refine Node.allSpaces_induction below _ fun node hnode ns hns => ?_
  obtain ⟨outer, houter, rfl⟩ := List.mem_map.1 hnode
  cases hns
  exact top _ houter

theorem mem_spaces_of_mem_namespaces {schema : Schema} {ns : Namespace} (h : ns ∈ schema.namespaces) :
    ns ∈ schema.spaces :=
  Node.mem_allSpaces_of_mem (List.mem_map_of_mem h)

theorem mem_spaces_of_mem {schema : Schema} {ns child : Namespace} (h : ns ∈ schema.spaces)
    (hc : child ∈ ns.spaces) : child ∈ schema.spaces :=
  Node.mem_allSpaces_trans h (Node.mem_allSpaces_of_mem (Namespace.mem_spaces.1 hc))

theorem At.mem_spaces {schema : Schema} {path : List String} {ns : Namespace} (h : schema.At path ns) :
    ns ∈ schema.spaces := by
  induction h with
  | top h => exact mem_spaces_of_mem_namespaces h
  | child _ hc ih => exact mem_spaces_of_mem ih hc

theorem mem_spaces_iff_at {schema : Schema} {ns : Namespace} :
    ns ∈ schema.spaces ↔ ∃ path, schema.At path ns := by
  constructor
  · apply spaces_induction (P := fun ns => ∃ path, schema.At path ns)
    · exact fun ns h => ⟨_, .top h⟩
    · rintro ns ⟨path, h⟩ child hc
      exact ⟨_, .child h hc⟩
  · rintro ⟨path, h⟩
    exact h.mem_spaces

theorem At.ne_nil {schema : Schema} {path : List String} {ns : Namespace} (h : schema.At path ns) :
    path ≠ [] := by
  cases h <;> simp

/-! ## Consistent and well-formed schemas -/

/-- The names in one place are distinct, and full names continue each other. -/
structure Consistent (schema : Schema) : Prop where
  names_nodup : (schema.namespaces.map Namespace.name).Nodup
  top_fullName : ∀ ns ∈ schema.namespaces, ns.fullName = ns.name
  children_nodup : ∀ ns ∈ schema.spaces, (ns.children.map Node.name).Nodup
  below_fullName : ∀ ns ∈ schema.spaces, ∀ child ∈ ns.spaces,
    child.fullName = ns.fullName ++ "." ++ child.name

/-- No name of a namespace holds a dot. -/
def DotFree (schema : Schema) : Prop := ∀ ns ∈ schema.spaces, '.' ∉ ns.name.toList

/-- A consistent schema where the dots of a full name stand between names only. -/
structure WellFormed (schema : Schema) : Prop extends schema.Consistent where
  dotFree : schema.DotFree

instance (schema : Schema) : Decidable schema.DotFree :=
  inferInstanceAs (Decidable (∀ ns ∈ schema.spaces, '.' ∉ ns.name.toList))

instance (schema : Schema) : Decidable schema.Consistent :=
  decidable_of_iff
    ((schema.namespaces.map Namespace.name).Nodup ∧ (∀ ns ∈ schema.namespaces, ns.fullName = ns.name) ∧
      (∀ ns ∈ schema.spaces, (ns.children.map Node.name).Nodup) ∧
      ∀ ns ∈ schema.spaces, ∀ child ∈ ns.spaces, child.fullName = ns.fullName ++ "." ++ child.name)
    ⟨fun ⟨a, b, c, d⟩ => ⟨a, b, c, d⟩, fun ⟨a, b, c, d⟩ => ⟨a, b, c, d⟩⟩

instance (schema : Schema) : Decidable schema.WellFormed :=
  decidable_of_iff (schema.Consistent ∧ schema.DotFree) ⟨fun ⟨a, b⟩ => ⟨a, b⟩, fun ⟨a, b⟩ => ⟨a, b⟩⟩

/-- The full name of a namespace spells its path. -/
theorem At.fullName_eq {schema : Schema} (hcons : schema.Consistent) {path : List String}
    {ns : Namespace} (h : schema.At path ns) : ns.fullName = Text.join "." path := by
  induction h with
  | top h => exact hcons.top_fullName _ h
  | child h hc ih =>
    rw [hcons.below_fullName _ h.mem_spaces _ hc, ih, Text.join_concat h.ne_nil]

theorem At.not_mem_dot {schema : Schema} (hdot : schema.DotFree) {path : List String} {ns : Namespace}
    (h : schema.At path ns) : ∀ name ∈ path, '.' ∉ name.toList := by
  induction h with
  | top h => simpa using hdot _ (mem_spaces_of_mem_namespaces h)
  | child h hc ih =>
    intro name hname
    rcases List.mem_append.1 hname with hname | hname
    · exact ih name hname
    · rw [List.mem_singleton.1 hname]
      exact hdot _ (mem_spaces_of_mem h.mem_spaces hc)

/-- The pieces of the full name of a namespace are its path. -/
theorem At.pieces_fullName {schema : Schema} (wf : schema.WellFormed) {path : List String}
    {ns : Namespace} (h : schema.At path ns) : Text.pieces '.' ns.fullName = path := by
  rw [h.fullName_eq wf.toConsistent, Text.pieces_join h.ne_nil (h.not_mem_dot wf.dotFree)]

/-! ## Looking up -/

theorem top?_eq_some_iff {schema : Schema} (hcons : schema.Consistent) {name : String} {ns : Namespace} :
    schema.top? name = some ns ↔ ns ∈ schema.namespaces ∧ ns.name = name :=
  find?_key_eq_some_iff hcons.names_nodup

theorem spaceAt?_concat (schema : Schema) {path : List String} (hne : path ≠ []) (name : String) :
    schema.spaceAt? (path ++ [name]) =
      (schema.spaceAt? path).bind fun ns => (ns.child? name).bind Node.space? := by
  cases path with
  | nil => exact absurd rfl hne
  | cons first path =>
    cases h : schema.top? first <;> simp [spaceAt?, h, Namespace.descend?_concat]

theorem At.descend {schema : Schema} {rest : List String} : ∀ {path : List String} {ns target : Namespace},
    schema.At path ns → ns.descend? rest = some target → schema.At (path ++ rest) target := by
  induction rest with
  | nil =>
    intro path ns target h htarget
    cases htarget
    simpa using h
  | cons name rest ih =>
    intro path ns target h htarget
    simp only [Namespace.descend?, Option.bind_eq_some_iff] at htarget
    obtain ⟨child, ⟨node, hnode, hchild⟩, htarget⟩ := htarget
    have hname : node.name = name := by simpa using List.find?_some hnode
    have hnode' := Namespace.toNode_of_space? hchild
    have hmem : child ∈ ns.spaces :=
      Namespace.mem_spaces.2 (hnode' ▸ List.mem_of_find?_eq_some hnode)
    have hchildName : child.name = name := by rw [← hname, ← hnode']; rfl
    have hat := ih (h.child hmem) htarget
    rwa [hchildName, List.append_assoc, List.singleton_append] at hat

theorem at_of_spaceAt? {schema : Schema} {path : List String} {ns : Namespace}
    (h : schema.spaceAt? path = some ns) : schema.At path ns := by
  cases path with
  | nil => cases h
  | cons name path =>
    simp only [spaceAt?, Option.bind_eq_some_iff] at h
    obtain ⟨outer, houter, h⟩ := h
    have hname : outer.name = name := by simpa using List.find?_some houter
    have hat := (At.top (List.mem_of_find?_eq_some houter)).descend h
    rwa [hname] at hat

theorem spaceAt?_eq_some_iff {schema : Schema} (hcons : schema.Consistent) {path : List String}
    {ns : Namespace} : schema.spaceAt? path = some ns ↔ schema.At path ns := by
  constructor
  · exact at_of_spaceAt?
  · intro h
    induction h with
    | top h => simp [spaceAt?, Namespace.descend?, (top?_eq_some_iff hcons).2 ⟨h, rfl⟩]
    | child h hc ih =>
      rw [spaceAt?_concat schema h.ne_nil, ih]
      simp [Namespace.child?_space (hcons.children_nodup _ h.mem_spaces) hc]

/-- One namespace stands at a path. -/
theorem At.unique {schema : Schema} (hcons : schema.Consistent) {path : List String} {a b : Namespace}
    (ha : schema.At path a) (hb : schema.At path b) : a = b :=
  Option.some.inj <|
    ((spaceAt?_eq_some_iff hcons).2 ha).symm.trans ((spaceAt?_eq_some_iff hcons).2 hb)

/-- What stands where the path of a namespace goes on is that namespace or below it. -/
theorem At.mem_spaces_toNode {schema : Schema} (hcons : schema.Consistent) {path target : List String}
    {ns inner : Namespace} (h : schema.At path ns) (hinner : schema.At target inner)
    (hstart : path <+: target) : inner ∈ ns.toNode.spaces := by
  have hself : ∀ {other : Namespace}, schema.At path other → other ∈ ns.toNode.spaces := by
    intro other hother
    rw [h.unique hcons hother, Node.spaces_toNode]
    exact List.mem_cons_self
  induction hinner with
  | @top other hother =>
    have hstart : path <+: [] ++ [other.name] := hstart
    rcases List.prefix_concat_iff.1 hstart with rfl | hnil
    · exact hself (.top hother)
    · exact absurd (List.prefix_nil.1 hnil) h.ne_nil
  | @child target outer child hat hc ih =>
    rcases List.prefix_concat_iff.1 hstart with rfl | hstart
    · exact hself (hat.child hc)
    · exact Node.mem_spaces_trans (ih hstart) (Node.mem_allSpaces_of_mem (Namespace.mem_spaces.1 hc))

/-- What a namespace holds at whatever depth stands where its path goes on. -/
theorem At.mem_spaces_toNode_iff {schema : Schema} (hcons : schema.Consistent) {path : List String}
    {ns inner : Namespace} (h : schema.At path ns) :
    inner ∈ ns.toNode.spaces ↔ ∃ rest, schema.At (path ++ rest) inner := by
  constructor
  · apply Node.spaces_induction (P := fun inner => ∃ rest, schema.At (path ++ rest) inner)
    · rintro outer ⟨rest, hat⟩ child hc
      refine ⟨rest ++ [child.name], ?_⟩
      rw [← List.append_assoc]
      exact hat.child hc
    · rintro _ ⟨⟩
      exact ⟨[], by rwa [List.append_nil]⟩
  · rintro ⟨rest, hinner⟩
    exact h.mem_spaces_toNode hcons hinner (List.prefix_append path rest)

theorem fullName_of_space? {schema : Schema} (hcons : schema.Consistent) {fullName : String}
    {ns : Namespace} (h : schema.space? fullName = some ns) : ns.fullName = fullName := by
  rw [(at_of_spaceAt? h).fullName_eq hcons, Text.join_pieces]

/-- A full name finds exactly the namespace that has it. -/
theorem space?_eq_some_iff {schema : Schema} (wf : schema.WellFormed) {fullName : String}
    {ns : Namespace} : schema.space? fullName = some ns ↔ ns ∈ schema.spaces ∧ ns.fullName = fullName := by
  constructor
  · intro h
    exact ⟨mem_spaces_of_space? h, fullName_of_space? wf.toConsistent h⟩
  · rintro ⟨hmem, rfl⟩
    obtain ⟨path, h⟩ := mem_spaces_iff_at.1 hmem
    rw [space?, h.pieces_fullName wf]
    exact (spaceAt?_eq_some_iff wf.toConsistent).2 h

/-- Two namespaces of one full name are the same. -/
theorem eq_of_fullName_eq {schema : Schema} (wf : schema.WellFormed) {a b : Namespace}
    (ha : a ∈ schema.spaces) (hb : b ∈ schema.spaces) (h : a.fullName = b.fullName) : a = b :=
  Option.some.inj <|
    ((space?_eq_some_iff wf).2 ⟨ha, rfl⟩).symm.trans ((space?_eq_some_iff wf).2 ⟨hb, h.symm⟩)

/-! ## Distinct full names -/

/-- What is below different names of one place has different full names. -/
theorem fullName_ne_of_siblings {schema : Schema} (wf : schema.WellFormed) {path : List String}
    {a b inner other : Namespace} (ha : schema.At (path ++ [a.name]) a) (hb : schema.At (path ++ [b.name]) b)
    (hne : a.name ≠ b.name) (hinner : inner ∈ a.toNode.spaces) (hother : other ∈ b.toNode.spaces) :
    inner.fullName ≠ other.fullName := by
  intro heq
  obtain ⟨p, hp⟩ := (ha.mem_spaces_toNode_iff wf.toConsistent).1 hinner
  obtain ⟨q, hq⟩ := (hb.mem_spaces_toNode_iff wf.toConsistent).1 hother
  have hpath : path ++ [a.name] ++ p = path ++ [b.name] ++ q := by
    rw [← hp.pieces_fullName wf, ← hq.pieces_fullName wf, heq]
  simp only [List.append_assoc, List.append_cancel_left_eq, List.singleton_append, List.cons.injEq] at hpath
  exact hne hpath.1

/-- What is below a namespace has another full name. -/
theorem fullName_ne_of_below {schema : Schema} (wf : schema.WellFormed) {ns inner : Namespace}
    (hns : ns ∈ schema.spaces) (h : inner ∈ Node.allSpaces ns.children) : ns.fullName ≠ inner.fullName := by
  intro heq
  obtain ⟨path, hat⟩ := mem_spaces_iff_at.1 hns
  obtain ⟨child, hchild, hinner⟩ := Node.mem_allSpaces_iff_toNode.1 h
  have hc := hat.child (Namespace.mem_spaces.2 hchild)
  obtain ⟨rest, hrest⟩ := (hc.mem_spaces_toNode_iff wf.toConsistent).1 hinner
  have hpath : path = path ++ [child.name] ++ rest := by
    rw [← hrest.pieces_fullName wf, ← heq, hat.pieces_fullName wf]
  simp [List.append_assoc] at hpath

end Schema

section

variable {schema : Schema}

mutual

theorem Node.fullNames_distinct (wf : schema.WellFormed) (path : List String) (node : Node)
    (h : ∀ ns, node.space? = some ns → schema.At path ns) :
    node.spaces.Pairwise fun a b => a.fullName ≠ b.fullName := by
  match node with
  | .type _ => exact List.Pairwise.nil
  | .space name fullName options children =>
    have hat : schema.At path ⟨name, fullName, options, children⟩ := h _ rfl
    have ih := Node.allFullNames_distinct wf path children (wf.children_nodup _ hat.mem_spaces)
      fun child hchild => hat.child (Namespace.mem_spaces.2 hchild)
    exact .cons (fun inner hinner => Schema.fullName_ne_of_below wf hat.mem_spaces hinner) ih

theorem Node.allFullNames_distinct (wf : schema.WellFormed) (path : List String) (nodes : List Node)
    (hnames : (nodes.map Node.name).Nodup)
    (h : ∀ child : Namespace, child.toNode ∈ nodes → schema.At (path ++ [child.name]) child) :
    (Node.allSpaces nodes).Pairwise fun a b => a.fullName ≠ b.fullName := by
  match nodes with
  | [] => exact List.Pairwise.nil
  | node :: rest =>
    rw [List.map_cons, List.nodup_cons] at hnames
    have hrest : ∀ child : Namespace, child.toNode ∈ rest → schema.At (path ++ [child.name]) child :=
      fun child hchild => h child (List.mem_cons_of_mem _ hchild)
    have ihRest := Node.allFullNames_distinct wf path rest hnames.2 hrest
    have ih := Node.fullNames_distinct wf (path ++ [node.name]) node fun ns hns => by
      rw [← Namespace.toNode_of_space? hns]
      exact h ns (Namespace.toNode_of_space? hns ▸ List.mem_cons_self)
    refine List.pairwise_append.2 ⟨ih, ihRest, fun inner hinner other hother => ?_⟩
    -- both go on behind one path, and their next names are those of two children
    cases node with
    | type t => cases hinner
    | space name fullName options children =>
      have hat := h ⟨name, fullName, options, children⟩ List.mem_cons_self
      obtain ⟨child, hchild, hother⟩ := Node.mem_allSpaces_iff_toNode.1 hother
      have hne : name ≠ child.name := fun heq => hnames.1 (List.mem_map.2 ⟨child.toNode, hchild, heq.symm⟩)
      exact Schema.fullName_ne_of_siblings wf hat (hrest child hchild) hne hinner hother

end

/-- The full names of all namespaces are distinct. -/
theorem Schema.fullNames_distinct (wf : schema.WellFormed) :
    schema.spaces.Pairwise fun a b => a.fullName ≠ b.fullName := by
  refine Node.allFullNames_distinct wf [] _ ?_ fun child hchild => ?_
  · simpa [Function.comp_def] using wf.names_nodup
  · obtain ⟨ns, hns, heq⟩ := List.mem_map.1 hchild
    obtain rfl := Namespace.toNode_inj heq
    exact .top hns

end

namespace Schema

/-! ## What addresses name -/

/-- The namespace stands at the path that a dotted name spells. -/
def Stands (schema : Schema) (fullName : String) (ns : Namespace) : Prop :=
  ∃ path, schema.At path ns ∧ Text.join "." path = fullName

/-- What an address names: the child of this name in the namespace that stands at the owner. -/
def Holds (schema : Schema) (address : TypeAddress) (node : Node) : Prop :=
  ∃ ns, schema.Stands address.owner ns ∧ node ∈ ns.children ∧ node.name = address.name

theorem stands_iff {schema : Schema} (hcons : schema.Consistent) {fullName : String} {ns : Namespace} :
    schema.Stands fullName ns ↔ ns ∈ schema.spaces ∧ ns.fullName = fullName := by
  constructor
  · rintro ⟨path, h, rfl⟩
    exact ⟨h.mem_spaces, h.fullName_eq hcons⟩
  · rintro ⟨hmem, rfl⟩
    obtain ⟨path, h⟩ := mem_spaces_iff_at.1 hmem
    exact ⟨path, h, (h.fullName_eq hcons).symm⟩

theorem holds_iff {schema : Schema} (hcons : schema.Consistent) {ns : Namespace} (h : ns ∈ schema.spaces)
    (wf : schema.DotFree) {name : String} {node : Node} :
    schema.Holds ⟨ns.fullName, name⟩ node ↔ ns.child? name = some node := by
  rw [Namespace.child?_eq_some_iff (hcons.children_nodup _ h)]
  constructor
  · rintro ⟨other, hother, hnode⟩
    obtain ⟨hmem, hname⟩ := (stands_iff hcons).1 hother
    rwa [eq_of_fullName_eq ⟨hcons, wf⟩ hmem h hname] at hnode
  · exact fun hnode => ⟨ns, (stands_iff hcons).2 ⟨h, rfl⟩, hnode⟩

theorem type?_eq_some_iff {schema : Schema} (wf : schema.WellFormed) {address : TypeAddress}
    {t : TypeDecl} : schema.type? address = some t ↔ schema.Holds address (.type t) := by
  simp only [type?, Option.bind_eq_some_iff]
  constructor
  · rintro ⟨node, ⟨ns, hns, hnode⟩, ht⟩
    obtain ⟨hmem, hname⟩ := (space?_eq_some_iff wf).1 hns
    obtain rfl := Node.type?_eq_some_iff.1 ht
    exact ⟨ns, (stands_iff wf.toConsistent).2 ⟨hmem, hname⟩,
      (Namespace.child?_eq_some_iff (wf.children_nodup _ hmem)).1 hnode⟩
  · rintro ⟨ns, hns, hnode⟩
    obtain ⟨hmem, hname⟩ := (stands_iff wf.toConsistent).1 hns
    exact ⟨_, ⟨ns, (space?_eq_some_iff wf).2 ⟨hmem, hname⟩,
      (Namespace.child?_eq_some_iff (wf.children_nodup _ hmem)).2 hnode⟩, rfl⟩

end Schema

end SchemaClosure
