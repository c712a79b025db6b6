import SchemaClosure.Proofs.Reach.Names
import SchemaClosure.Proofs.Schema.Address

/-!
# What a walk does

`Schema.Walks` says step by step what a walk does with its stack: the frame on top has no node and the
walk stops, or it is recorded and passed, or it is recorded and followed. The theorems about walks are
inductions on it.

* `Walks.sound`: what a walk records, and the name that it misses, comes from its stack along references.
* `Walks.covered`: when a walk misses nothing, all that its stack leads to is settled in the end. The
  invariant is `Covered`: where a followed frame leads to is settled or still on the stack. It needs that
  no two frames share an address.
* `collectAll_eq_walk`: several requests are one walk with all their frames on the stack.
-/

namespace SchemaClosure

/-! ## Frames -/

namespace Frame

variable {schema : Schema}

/-- The address that the frame looks at. -/
def address (frame : Frame schema) : TypeAddress := ⟨frame.home.fullName, frame.name⟩

/-- What is found at the address. -/
def node? (frame : Frame schema) : Option Node := frame.home.child? frame.name

/-- The type whose fields are followed, if there is one. -/
def message? (frame : Frame schema) : Option TypeDecl := frame.node?.bind Node.message?

/-- The frames that the fields lead to. -/
def next (frame : Frame schema) : List (Frame schema) :=
  match frame.message? with
  | none => []
  | some t => t.references.filterMap (Frame.of? schema)

theorem of?_eq_some_iff {address : TypeAddress} {frame : Frame schema} :
    Frame.of? schema address = some frame ↔
      schema.space? address.owner = some frame.home ∧ address.name = frame.name := by
  obtain ⟨home, hmem, name⟩ := frame
  unfold Frame.of?
  split
  · rename_i ns hns
    simp [hns]
  · rename_i hnone
    simp [hnone]

theorem of?_of_space? {address : TypeAddress} {ns : Namespace}
    (h : schema.space? address.owner = some ns) :
    Frame.of? schema address = some ⟨ns, Schema.mem_spaces_of_space? h, address.name⟩ :=
  of?_eq_some_iff.2 ⟨h, rfl⟩

theorem of?_eq_none_iff {address : TypeAddress} :
    Frame.of? schema address = none ↔ schema.space? address.owner = none := by
  constructor
  · intro h
    cases hspace : schema.space? address.owner with
    | none => rfl
    | some ns => simp [of?_of_space? hspace] at h
  · intro h
    cases hframe : Frame.of? schema address with
    | none => rfl
    | some frame => simp [(of?_eq_some_iff.1 hframe).1] at h

theorem mem_next {frame g : Frame schema} :
    g ∈ frame.next ↔ ∃ t, frame.message? = some t ∧ ∃ b ∈ t.references, Frame.of? schema b = some g := by
  unfold next
  split
  · rename_i h
    simp [h]
  · rename_i t h
    simp [h]

theorem node?_isSome_of_child? {frame : Frame schema} {node : Node}
    (h : frame.home.child? frame.name = some node) : frame.node?.isSome := by
  simp [node?, h]

theorem message?_of_child? {frame : Frame schema} {node : Node}
    (h : frame.home.child? frame.name = some node) : frame.message? = node.message? := by
  simp [message?, node?, h]

theorem node?_isSome_of_message? {frame : Frame schema} {t : TypeDecl} (h : frame.message? = some t) :
    frame.node?.isSome := by
  obtain ⟨node, hnode, -⟩ := Option.bind_eq_some_iff.1 h
  simp [hnode]

theorem message?_isSome_of_mem_next {frame g : Frame schema} (hg : g ∈ frame.next) : frame.message?.isSome := by
  obtain ⟨t, ht, -⟩ := mem_next.1 hg
  simp [ht]

theorem message?_eq_some_iff {frame : Frame schema} {t : TypeDecl} :
    frame.message? = some t ↔ frame.node? = some (.type t) ∧ t.kind = .message := by
  simp only [message?, Option.bind_eq_some_iff]
  constructor
  · rintro ⟨node, hnode, h⟩
    cases node with
    | type u =>
      simp only [Node.message?] at h
      split at h
      · rename_i hkind
        cases h
        exact ⟨hnode, hkind⟩
      · cases h
    | space name fullName options children => cases h
  · rintro ⟨hnode, hkind⟩
    exact ⟨_, hnode, by simp [Node.message?, hkind]⟩

/-- The address tells frames apart when it tells namespaces apart. -/
theorem eq_of_address_eq (wf : schema.WellFormed) {f g : Frame schema} (h : f.address = g.address) :
    f = g := by
  obtain ⟨home, hmem, name⟩ := f
  obtain ⟨home', hmem', name'⟩ := g
  simp only [address, TypeAddress.mk.injEq] at h
  obtain rfl := Schema.eq_of_fullName_eq wf hmem hmem' h.1
  obtain rfl := h.2
  rfl

end Frame

/-! ## The relation of a walk -/

namespace WalkState

/-- The state with an address among the reachable names. -/
def record (s : WalkState) (address : TypeAddress) : WalkState :=
  { s with reachable := s.reachable.insert address.owner address.name }

/-- The address is among the reachable names. -/
def Records (s : WalkState) (address : TypeAddress) : Prop :=
  address.name ∈ s.reachable.names address.owner

@[simp] theorem records_expand {s : WalkState} {address a : TypeAddress} :
    (s.expand address).Records a ↔ s.Records a := Iff.rfl

@[simp] theorem records_record {s : WalkState} {address a : TypeAddress} :
    (s.record address).Records a ↔ a = address ∨ s.Records a := by
  obtain ⟨owner, name⟩ := address
  obtain ⟨n, x⟩ := a
  simp [Records, record, ReachableNames.mem_names_insert]

end WalkState

namespace Schema

variable {schema : Schema}

/-- A walk from a stack and a state ends in a state, with the name that it misses if it misses one. -/
inductive Walks (schema : Schema) :
    List (Frame schema) → WalkState → WalkState → Option MissingType → Prop
  | done {s : WalkState} : Walks schema [] s s none
  | missing {frame : Frame schema} {stack : List (Frame schema)} {s : WalkState} :
    frame.node? = none →
    Walks schema (frame :: stack) s { s with reachable := s.reachable.touch frame.address.owner }
      (some ⟨frame.address.owner, frame.address.name⟩)
  | pass {frame : Frame schema} {stack : List (Frame schema)} {s s' : WalkState}
      {out : Option MissingType} :
    frame.node?.isSome → (frame.message? = none ∨ frame.address ∈ s.visited) →
    Walks schema stack (s.record frame.address) s' out → Walks schema (frame :: stack) s s' out
  | follow {frame : Frame schema} {stack : List (Frame schema)} {s s' : WalkState}
      {out : Option MissingType} :
    frame.message?.isSome → frame.address ∉ s.visited →
    Walks schema (frame.next ++ stack) ((s.record frame.address).expand frame.address) s' out →
    Walks schema (frame :: stack) s s' out

theorem walks_walk (stack : List (Frame schema)) (s : WalkState) :
    schema.Walks stack s (schema.walk stack s).1 (schema.walk stack s).2 := by
  induction stack, s using Schema.walk.induct with
  | case1 s =>
    rw [walk]
    exact .done
  | case2 frame stack s hnode =>
    rw [walk]
    split
    · exact .missing hnode
    · simp_all
  | case3 frame stack s owner node hnode s' hmessage ih =>
    rw [walk]
    split
    · simp_all
    · rename_i found
      obtain rfl := Option.some.inj (found.symm.trans hnode)
      simp only [hmessage]
      have hframe := (Frame.message?_of_child? hnode).trans hmessage
      exact .pass (Frame.node?_isSome_of_child? hnode) (.inl hframe) ih
  | case4 frame stack s owner node hnode s' t hmessage hseen ih =>
    rw [walk]
    split
    · simp_all
    · rename_i found
      obtain rfl := Option.some.inj (found.symm.trans hnode)
      simp only [hmessage]
      rw [dif_pos hseen]
      exact .pass (Frame.node?_isSome_of_child? hnode) (.inr hseen) ih
  | case5 frame stack s owner node hnode s' t hmessage hseen ih =>
    rw [walk]
    split
    · simp_all
    · rename_i found
      obtain rfl := Option.some.inj (found.symm.trans hnode)
      have hframe := (Frame.message?_of_child? hnode).trans hmessage
      simp only [hmessage]
      rw [dif_neg hseen]
      refine .follow (by simp [hframe]) hseen ?_
      have hnext : frame.next = t.references.filterMap (Frame.of? schema) := by
        simp [Frame.next, hframe]
      rw [hnext]
      exact ih

theorem Walks.unique {stack : List (Frame schema)} {s s' : WalkState} {out : Option MissingType}
    (h : schema.Walks stack s s' out) : ∀ {s'' : WalkState} {out' : Option MissingType},
    schema.Walks stack s s'' out' → s' = s'' ∧ out = out' := by
  induction h with
  | done =>
    rintro _ _ ⟨⟩
    exact ⟨rfl, rfl⟩
  | missing hnode =>
    rintro _ _ (_ | _ | _ | _)
    · exact ⟨rfl, rfl⟩
    · simp_all
    · rename_i hmessage _ _
      simp [Frame.message?, hnode] at hmessage
  | pass hnode hpass _ ih =>
    rintro _ _ (_ | _ | _ | _)
    · simp_all
    · rename_i h
      exact ih h
    · rename_i hmessage hnew _
      rcases hpass with hpass | hpass
      · simp [hpass] at hmessage
      · exact absurd hpass hnew
  | follow hmessage hnew _ ih =>
    rintro _ _ (_ | _ | _ | _)
    · rename_i hnode
      simp [Frame.message?, hnode] at hmessage
    · rename_i hpass _
      rcases hpass with hpass | hpass
      · simp [hpass] at hmessage
      · exact absurd hpass hnew
    · rename_i h
      exact ih h

theorem walks_iff {stack : List (Frame schema)} {s s' : WalkState} {out : Option MissingType} :
    schema.Walks stack s s' out ↔ schema.walk stack s = (s', out) := by
  constructor
  · intro h
    obtain ⟨h1, h2⟩ := (walks_walk stack s).unique h
    exact Prod.ext h1 h2
  · intro h
    have := walks_walk stack s
    rwa [h] at this

theorem walk_pass {frame : Frame schema} {s : WalkState} (hnode : frame.node?.isSome)
    (hpass : frame.message? = none ∨ frame.address ∈ s.visited) (stack : List (Frame schema)) :
    schema.walk (frame :: stack) s = schema.walk stack (s.record frame.address) :=
  walks_iff.1 (.pass hnode hpass (walks_walk _ _))

theorem walk_follow {frame : Frame schema} {s : WalkState} (hmessage : frame.message?.isSome)
    (hnew : frame.address ∉ s.visited) (stack : List (Frame schema)) :
    schema.walk (frame :: stack) s =
      schema.walk (frame.next ++ stack) ((s.record frame.address).expand frame.address) :=
  walks_iff.1 (.follow hmessage hnew (walks_walk _ _))

/-! ## What a walk records -/

theorem Walks.visited_subset {stack : List (Frame schema)} {s s' : WalkState} {out : Option MissingType}
    (h : schema.Walks stack s s' out) : s.visited ⊆ s'.visited := by
  induction h with
  | done => exact List.Subset.refl _
  | missing _ => exact List.Subset.refl _
  | pass _ _ _ ih => exact ih
  | follow _ _ _ ih => exact fun a ha => ih (List.mem_cons_of_mem _ ha)

theorem Walks.records_mono {stack : List (Frame schema)} {s s' : WalkState} {out : Option MissingType}
    (h : schema.Walks stack s s' out) {a : TypeAddress} (ha : s.Records a) : s'.Records a := by
  induction h with
  | done => exact ha
  | missing _ => exact ReachableNames.mem_names_touch.2 ha
  | pass _ _ _ ih => exact ih (WalkState.records_record.2 (.inr ha))
  | follow _ _ _ ih => exact ih (WalkState.records_record.2 (.inr ha))

/-- A walk that misses nothing keeps the set filled. -/
theorem Walks.filled {stack : List (Frame schema)} {s s' : WalkState}
    (h : schema.Walks stack s s' none) (hs : s.reachable.Filled) : s'.reachable.Filled := by
  generalize hout : (none : Option MissingType) = out at h
  induction h with
  | done => exact hs
  | missing _ => cases hout
  | pass _ _ _ ih => exact ih (hs.insert _ _) hout
  | follow _ _ _ ih => exact ih (hs.insert _ _) hout

/-- Everything recorded and the missing name, if there is one, come from the stack along references of what is
not among some marks that the walk starts with. -/
theorem Walks.sound_beyond {P : Frame schema → Prop} {marked : List TypeAddress}
    (hnext : ∀ f, P f → f.address ∉ marked → ∀ g ∈ f.next, P g)
    {stack : List (Frame schema)} {s s' : WalkState} {out : Option MissingType}
    (h : schema.Walks stack s s' out) (hmarked : marked ⊆ s.visited) (hstack : ∀ f ∈ stack, P f) :
    (∀ a, s'.Records a → s.Records a ∨ ∃ f, P f ∧ f.address = a) ∧
      ∀ m, out = some m → ∃ f, P f ∧ f.address = ⟨m.owner, m.name⟩ ∧ f.node? = none := by
  induction h with
  | done => exact ⟨fun a ha => .inl ha, fun m hm => nomatch hm⟩
  | missing hnode =>
    refine ⟨fun a ha => .inl (ReachableNames.mem_names_touch.1 ha), fun m hm => ?_⟩
    cases hm
    exact ⟨_, hstack _ (by simp), rfl, hnode⟩
  | @pass frame stack s s' out hnode hpass _ ih =>
    obtain ⟨hrec, hmiss⟩ := ih hmarked fun f hf => hstack f (by simp [hf])
    refine ⟨fun a ha => ?_, hmiss⟩
    rcases hrec a ha with ha | ha
    · rcases WalkState.records_record.1 ha with rfl | ha
      · exact .inr ⟨frame, hstack _ (by simp), rfl⟩
      · exact .inl ha
    · exact .inr ha
  | @follow frame stack s s' out hmessage hnew _ ih =>
    have hframe : P frame := hstack _ (by simp)
    obtain ⟨hrec, hmiss⟩ := ih (fun a ha => List.mem_cons_of_mem _ (hmarked ha)) fun f hf => by
      rcases List.mem_append.1 hf with hf | hf
      · exact hnext _ hframe (fun ha => hnew (hmarked ha)) f hf
      · exact hstack f (by simp [hf])
    refine ⟨fun a ha => ?_, hmiss⟩
    rcases hrec a ha with ha | ha
    · rcases WalkState.records_record.1 (WalkState.records_expand.1 ha) with rfl | ha
      · exact .inr ⟨frame, hframe, rfl⟩
      · exact .inl ha
    · exact .inr ha

/-- Everything recorded and the missing name, if there is one, come from the stack along references. -/
theorem Walks.sound {P : Frame schema → Prop} (hnext : ∀ f, P f → ∀ g ∈ f.next, P g)
    {stack : List (Frame schema)} {s s' : WalkState} {out : Option MissingType}
    (h : schema.Walks stack s s' out) (hstack : ∀ f ∈ stack, P f) :
    (∀ a, s'.Records a → s.Records a ∨ ∃ f, P f ∧ f.address = a) ∧
      ∀ m, out = some m → ∃ f, P f ∧ f.address = ⟨m.owner, m.name⟩ ∧ f.node? = none :=
  h.sound_beyond (fun f hf (_ : f.address ∉ ([] : List TypeAddress)) => hnext f hf) (List.nil_subset _) hstack

end Schema

/-! ## What a walk leaves settled -/

/-- The frame is recorded, there is a node for it, and it is followed if it can be. -/
structure WalkState.Settled {schema : Schema} (s : WalkState) (frame : Frame schema) : Prop where
  records : s.Records frame.address
  node : frame.node?.isSome
  followed : frame.message?.isSome → frame.address ∈ s.visited

/-- Where followed frames lead to is settled or pending. -/
def WalkState.Covered {schema : Schema} (s : WalkState) (pending : List (Frame schema)) : Prop :=
  ∀ f : Frame schema, f.address ∈ s.visited → ∀ g ∈ f.next, s.Settled g ∨ g ∈ pending

/-- Where the followed frames of a kind lead to is settled, or it is on the stack and above it there is only
what these frames lead to. -/
def WalkState.Tracked {schema : Schema} (s : WalkState) (E : Frame schema → Prop)
    (L : Frame schema → Frame schema → Prop) (stack : List (Frame schema)) : Prop :=
  ∀ f, E f → f.address ∈ s.visited → ∀ g ∈ f.next,
    s.Settled g ∨ ∃ above below, stack = above ++ g :: below ∧ ∀ x ∈ above, L f x

theorem WalkState.covered_start {schema : Schema} (pending : List (Frame schema)) :
    WalkState.start.Covered pending := by
  intro f hf
  cases hf

namespace Schema

variable {schema : Schema}

theorem Walks.settled_mono {stack : List (Frame schema)} {s s' : WalkState} {out : Option MissingType}
    (h : schema.Walks stack s s' out) {f : Frame schema} (hf : s.Settled f) : s'.Settled f :=
  ⟨h.records_mono hf.records, hf.node, fun hm => h.visited_subset (hf.followed hm)⟩

/-- A frame that is recorded and passed is settled. -/
theorem settled_pass {frame : Frame schema} {s : WalkState} (hnode : frame.node?.isSome)
    (hpass : frame.message? = none ∨ frame.address ∈ s.visited) : (s.record frame.address).Settled frame := by
  refine ⟨WalkState.records_record.2 (.inl rfl), hnode, fun hm => ?_⟩
  rcases hpass with hpass | hpass
  · simp [hpass] at hm
  · exact hpass

/-- A frame that is recorded and followed is settled. -/
theorem settled_follow {frame : Frame schema} (s : WalkState) (hmessage : frame.message?.isSome) :
    ((s.record frame.address).expand frame.address).Settled frame := by
  obtain ⟨t, ht⟩ := Option.isSome_iff_exists.1 hmessage
  exact ⟨WalkState.records_record.2 (.inl rfl), Frame.node?_isSome_of_message? ht, fun _ => List.mem_cons_self⟩

theorem settled_record {s : WalkState} {g : Frame schema} (h : s.Settled g) (address : TypeAddress) :
    (s.record address).Settled g :=
  ⟨WalkState.records_record.2 (.inr h.records), h.node, h.followed⟩

theorem settled_expand {s : WalkState} {g : Frame schema} (h : s.Settled g) (address : TypeAddress) :
    (s.expand address).Settled g :=
  ⟨h.records, h.node, fun hm => List.mem_cons_of_mem _ (h.followed hm)⟩

/-- A walk that misses nothing settles its stack. -/
theorem Walks.settles {stack : List (Frame schema)} {s s' : WalkState} (h : schema.Walks stack s s' none) :
    ∀ f ∈ stack, s'.Settled f := by
  generalize hout : (none : Option MissingType) = out at h
  induction h with
  | done => simp
  | missing _ => cases hout
  | pass hnode hpass hwalk ih =>
    exact List.forall_mem_cons.2 ⟨hwalk.settled_mono (settled_pass hnode hpass), ih hout⟩
  | follow hmessage _ hwalk ih =>
    exact List.forall_mem_cons.2 ⟨hwalk.settled_mono (settled_follow _ hmessage),
      fun f hf => ih hout f (List.mem_append_right _ hf)⟩

/-- The frame on top is settled by a step; what was tracked below it stays tracked. -/
theorem tracked_of_cons {E : Frame schema → Prop} {L : Frame schema → Frame schema → Prop}
    {frame : Frame schema} {stack more : List (Frame schema)} {s s' : WalkState}
    (hs : s.Tracked E L (frame :: stack)) (hmono : ∀ g : Frame schema, s.Settled g → s'.Settled g)
    (hframe : s'.Settled frame) (hmore : ∀ f, L f frame → ∀ x ∈ more, L f x) {f g : Frame schema} (hE : E f)
    (hf : f.address ∈ s.visited) (hg : g ∈ f.next) :
    s'.Settled g ∨ ∃ above below, more ++ stack = above ++ g :: below ∧ ∀ x ∈ above, L f x := by
  rcases hs f hE hf g hg with h | ⟨_ | ⟨top, above⟩, below, hsplit, habove⟩
  · exact .inl (hmono g h)
  · cases hsplit
    exact .inl hframe
  · cases hsplit
    refine .inr ⟨more ++ above, below, by simp, fun x hx => ?_⟩
    rcases List.mem_append.1 hx with hx | hx
    · exact hmore f (habove _ List.mem_cons_self) x hx
    · exact habove x (List.mem_cons_of_mem _ hx)

/-- What a walk follows leads to settled frames in the end, or to the name that it misses. -/
theorem Walks.tracked (wf : schema.WellFormed) {E : Frame schema → Prop}
    {L : Frame schema → Frame schema → Prop} (hnext : ∀ f, ∀ g ∈ f.next, L f g)
    (htrans : ∀ f g, L f g → ∀ x ∈ g.next, L f x) {stack : List (Frame schema)} {s s' : WalkState}
    {out : Option MissingType} (h : schema.Walks stack s s' out) (hs : s.Tracked E L stack) :
    ∀ f, E f → f.address ∈ s'.visited → ∀ g ∈ f.next,
      s'.Settled g ∨ ∃ x, L f x ∧ x.node? = none ∧ out.isSome := by
  induction h with
  | done =>
    intro f hE hf g hg
    exact (hs f hE hf g hg).imp_right fun ⟨above, below, hsplit, _⟩ => by simp at hsplit
  | @missing frame stack s hnode =>
    intro f hE hf g hg
    rcases hs f hE hf g hg with h | ⟨_ | ⟨top, above⟩, below, hsplit, habove⟩
    · exact .inl ⟨ReachableNames.mem_names_touch.2 h.records, h.node, h.followed⟩
    · cases hsplit
      exact .inr ⟨_, hnext f _ hg, hnode, rfl⟩
    · cases hsplit
      exact .inr ⟨_, habove _ List.mem_cons_self, hnode, rfl⟩
  | @pass frame stack s s' out hnode hpass _ ih =>
    refine ih fun f hE hf g hg => ?_
    exact tracked_of_cons hs (fun g hg => settled_record hg _) (settled_pass hnode hpass)
      (fun _ _ x (hx : x ∈ []) => nomatch hx) hE hf hg
  | @follow frame stack s s' out hmessage hnew _ ih =>
    refine ih fun f hE hf g hg => ?_
    -- the frame itself is the only new one among the followed frames
    rcases List.mem_cons.1 hf with hf | hf
    · obtain rfl := Frame.eq_of_address_eq wf hf
      obtain ⟨above, below, hsplit⟩ := List.append_of_mem hg
      refine .inr ⟨above, below ++ stack, by simp [hsplit], fun x hx => hnext f x ?_⟩
      exact hsplit ▸ List.mem_append_left _ hx
    · exact tracked_of_cons hs (fun g hg => settled_expand (settled_record hg _) _)
        (settled_follow s hmessage) (fun f hL x hx => htrans f frame hL x hx) hE hf hg

/-- A walk that misses nothing settles its stack and leaves nothing pending. -/
theorem Walks.covered (wf : schema.WellFormed) {stack : List (Frame schema)} {s s' : WalkState}
    (h : schema.Walks stack s s' none) (hcov : s.Covered stack) :
    s'.Covered ([] : List (Frame schema)) ∧ ∀ f ∈ stack, s'.Settled f := by
  refine ⟨fun f hf g hg => .inl ?_, h.settles⟩
  have htracked : s.Tracked (fun _ => True) (fun _ _ => True) stack := by
    intro f _ hf g hg
    refine (hcov f hf g hg).imp_right fun hmem => ?_
    obtain ⟨above, below, hsplit⟩ := List.append_of_mem hmem
    exact ⟨above, below, hsplit, fun _ _ => trivial⟩
  have hend := h.tracked wf (fun _ _ _ => trivial) (fun _ _ _ _ _ => trivial) htracked f trivial hf g hg
  exact hend.resolve_right fun ⟨_, _, _, hout⟩ => nomatch hout

/-! ## Several requests -/

theorem Walks.append {stack : List (Frame schema)} {s s' : WalkState}
    (h : schema.Walks stack s s' none) (more : List (Frame schema)) :
    schema.walk (stack ++ more) s = schema.walk more s' := by
  generalize hout : (none : Option MissingType) = out at h
  induction h with
  | done => rfl
  | missing _ => cases hout
  | pass hnode hpass _ ih => rw [← ih hout, List.cons_append, walk_pass hnode hpass]
  | follow hmessage hnew _ ih =>
    rw [← ih hout, List.cons_append, walk_follow hmessage hnew, List.append_assoc]

theorem Walks.append_missing {stack : List (Frame schema)} {s s' : WalkState} {m : MissingType}
    (h : schema.Walks stack s s' (some m)) (more : List (Frame schema)) :
    schema.walk (stack ++ more) s = (s', some m) := by
  generalize hout : some m = out at h
  induction h with
  | done => cases hout
  | missing hnode => exact walks_iff.1 (.missing hnode)
  | pass hnode hpass _ ih => rw [← ih hout, List.cons_append, walk_pass hnode hpass]
  | follow hmessage hnew _ ih =>
    rw [← ih hout, List.cons_append, walk_follow hmessage hnew, List.append_assoc]

/-- A walk from two stacks is one from the first and then, if that misses nothing, one from the second. -/
theorem walk_append (stack more : List (Frame schema)) (s : WalkState) :
    schema.walk (stack ++ more) s =
      match schema.walk stack s with
      | (s', none) => schema.walk more s'
      | (s', some missing) => (s', some missing) := by
  have hwalk := walks_walk stack s
  rcases h : schema.walk stack s with ⟨s', _ | missing⟩
  · rw [h] at hwalk
    exact hwalk.append more
  · rw [h] at hwalk
    exact hwalk.append_missing more

/-- The frames that a request puts on the stack. -/
def entries (schema : Schema) : Request → List (Frame schema)
  | ⟨owner, typeNames⟩ =>
    match h : schema.top? owner with
    | none => []
    | some ns => typeNames.map fun name => ⟨ns, mem_spaces_of_top? h, name⟩

theorem entries_of_top? {request : Request} {ns : Namespace} (h : schema.top? request.owner = some ns) :
    schema.entries request = request.typeNames.map fun name => ⟨ns, mem_spaces_of_top? h, name⟩ := by
  obtain ⟨owner, typeNames⟩ := request
  rw [entries]
  split
  · simp_all
  · rename_i ns' h'
    obtain rfl := Option.some.inj (h'.symm.trans h)
    rfl

theorem entries_of_top?_eq_none {request : Request} (h : schema.top? request.owner = none) :
    schema.entries request = [] := by
  obtain ⟨owner, typeNames⟩ := request
  rw [entries]
  split
  · rfl
  · simp_all

theorem entries_of_typeNames_eq_nil {request : Request} (h : request.typeNames = []) :
    schema.entries request = [] := by
  obtain ⟨owner, typeNames⟩ := request
  rw [entries]
  split
  · rfl
  · simpa using h

theorem mem_entries {request : Request} {f : Frame schema} :
    f ∈ schema.entries request ↔
      schema.top? request.owner = some f.home ∧ f.name ∈ request.typeNames := by
  obtain ⟨home, hmem, name⟩ := f
  cases h : schema.top? request.owner with
  | none => simp [entries_of_top?_eq_none h]
  | some ns => simp [entries_of_top? h, and_comm]

theorem collect_eq_walk (request : Request) (s : WalkState) :
    schema.collect request s = schema.walk (schema.entries request) s := by
  unfold collect
  split
  · rename_i h
    rw [entries_of_top?_eq_none h, walk]
  · rename_i ns h
    rw [entries_of_top? h]

/-- Requests one after the other are one walk from all their frames. -/
theorem collectAll_eq_walk (requests : List Request) (s : WalkState) :
    schema.collectAll requests s = schema.walk (requests.flatMap schema.entries) s := by
  induction requests generalizing s with
  | nil => rw [collectAll, List.flatMap_nil, walk]
  | cons request rest ih =>
    rw [collectAll, collect_eq_walk, List.flatMap_cons, walk_append]
    rcases schema.walk (schema.entries request) s with ⟨s', _ | m⟩
    · exact ih s'
    · rfl

theorem filterAll_eq_ok_iff {requests : List Request} {r : ReachableNames} {pruned : Schema} :
    schema.filterAll requests = .ok (r, pruned) ↔
      ∃ s, schema.Walks (requests.flatMap schema.entries) .start s none ∧ r = s.reachable ∧
        pruned = schema.prune r := by
  simp only [filterAll, collectAll_eq_walk, walks_iff]
  rcases schema.walk (requests.flatMap schema.entries) .start with ⟨s, _ | m⟩
  · simp only [Except.ok.injEq, Prod.mk.injEq, and_true, exists_eq_left']
    constructor
    · rintro ⟨rfl, rfl⟩
      exact ⟨rfl, rfl⟩
    · rintro ⟨rfl, rfl⟩
      exact ⟨rfl, rfl⟩
  · simp

/-- What a filter leaves is pruned to the names that it finds. -/
theorem eq_prune_of_filterAll {requests : List Request} {r : ReachableNames} {pruned : Schema}
    (h : schema.filterAll requests = .ok (r, pruned)) : pruned = schema.prune r := by
  obtain ⟨-, -, -, hpruned⟩ := filterAll_eq_ok_iff.1 h
  exact hpruned

theorem filterAll_eq_error_iff {requests : List Request} {m : MissingType} :
    schema.filterAll requests = .error m ↔
      ∃ s, schema.Walks (requests.flatMap schema.entries) .start s (some m) := by
  simp only [filterAll, collectAll_eq_walk, walks_iff]
  rcases schema.walk (requests.flatMap schema.entries) .start with ⟨s, _ | m'⟩ <;> simp

end Schema

end SchemaClosure
