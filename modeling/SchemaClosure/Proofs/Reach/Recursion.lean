import SchemaClosure.Proofs.Reach.Walk

/-!
# The recursion behind the walk

`Schema.visit` is the search without a stack: a name is looked up and recorded, and if it is a message that has
not been followed yet, its fields are visited one after the other, with one state for all of them. A `Visit`
carries the proof that marks are never taken back. That is why the recursion ends: fields are visited only
with one more address marked, and each of them leaves at most as many addresses to the next.

Main theorem `collect_eq_visit`: for every schema, request and state the walk with the stack ends in
the same state and with the same missing name as the recursion. No schema is assumed to be well-formed here,
and the state at the start is any state.
-/

namespace SchemaClosure

theorem ReachableNames.insert_touch (r : ReachableNames) (owner name : String) :
    (r.touch owner).insert owner name = r.insert owner name := by
  induction r with
  | nil => simp [touch, insert]
  | cons entry rest ih =>
    obtain ⟨n, xs⟩ := entry
    by_cases hn : n = owner <;> simp [touch, insert, hn, ih]

namespace WalkState

/-- The state with an entry for a namespace. -/
def touch (s : WalkState) (owner : String) : WalkState :=
  { s with reachable := s.reachable.touch owner }

theorem record_touch (s : WalkState) (address : TypeAddress) :
    (s.touch address.owner).record address = s.record address := by
  simp [touch, record, ReachableNames.insert_touch]

end WalkState

/-- How a visit from a state ends: in a state where what was marked still is, and with the missing name if it
came to one. -/
structure Visit (s : WalkState) where
  state : WalkState
  missing : Option MissingType
  grown : s.visited ⊆ state.visited

namespace Visit

variable {s s' : WalkState}

/-- The end of a visit as that of a visit from an earlier state. -/
def since (v : Visit s') (h : s.visited ⊆ s'.visited) : Visit s :=
  ⟨v.state, v.missing, fun _ ha => v.grown (h ha)⟩

/-- The state and the missing name. -/
def outcome (v : Visit s) : WalkState × Option MissingType := (v.state, v.missing)

end Visit

namespace Schema

variable {schema : Schema}

theorem unvisited_le {visited visited' : List TypeAddress} (h : visited ⊆ visited') :
    schema.unvisited visited' ≤ schema.unvisited visited := by
  refine (List.monotone_filter_right schema.addresses fun a ha => ?_).length_le
  have ha : a ∉ visited' := by simpa using ha
  simpa using fun hmem => ha (h hmem)

mutual

/-- Visits the name of a frame. The namespace gets an entry. If it has no child of the name, this is the
missing name; else the name is recorded, and the fields of a message are visited unless they were before. -/
def visit (schema : Schema) (frame : Frame schema) (s : WalkState) : Visit s :=
  let touched := s.touch frame.home.fullName
  match _found : frame.home.child? frame.name with
  | none => ⟨touched, some ⟨frame.home.fullName, frame.name⟩, List.Subset.refl _⟩
  | some node =>
    let recorded := touched.record frame.address
    match node.message? with
    | none => ⟨recorded, none, List.Subset.refl _⟩
    | some t =>
      if _seen : frame.address ∈ s.visited then ⟨recorded, none, List.Subset.refl _⟩
      else (visitFields schema t.fields (recorded.expand frame.address)).since (List.subset_cons_self _ _)
  termination_by (schema.unvisited s.visited, 0)
  decreasing_by
    exact Prod.Lex.left _ _ (unvisited_cons_lt (mem_addresses_of_child? frame.home_mem _found) _seen)

/-- Visits what fields refer to, in order, up to the first that leads to a missing name. A reference into a
namespace that is not there is passed over. -/
def visitFields (schema : Schema) (fields : List Field) (s : WalkState) : Visit s :=
  match fields with
  | [] => ⟨s, none, List.Subset.refl _⟩
  | field :: rest =>
    match field.resolved.bind (Frame.of? schema) with
    | none => visitFields schema rest s
    | some frame =>
      match visit schema frame s with
      | ⟨s', none, grown⟩ => (visitFields schema rest s').since grown
      | ⟨s', some missing, grown⟩ => ⟨s', some missing, grown⟩
  termination_by (schema.unvisited s.visited, fields.length + 1)
  decreasing_by
    · exact Prod.Lex.right _ (by simp)
    · exact Prod.Lex.right _ (by simp)
    · have hle : schema.unvisited s'.visited ≤ schema.unvisited s.visited := unvisited_le grown
      rcases Nat.lt_or_eq_of_le hle with hless | heq
      · exact Prod.Lex.left _ _ hless
      · rw [heq]
        exact Prod.Lex.right _ (by simp)

end

/-- Visits names of a namespace in order, up to the first that leads to a missing name. -/
def visitNames (schema : Schema) (ns : Namespace) (hns : ns ∈ schema.spaces) :
    List String → WalkState → WalkState × Option MissingType
  | [], s => (s, none)
  | name :: rest, s =>
    match (schema.visit ⟨ns, hns, name⟩ s).outcome with
    | (s', none) => schema.visitNames ns hns rest s'
    | (s', some missing) => (s', some missing)

end Schema

/-- Visits the names of a request, if its namespace is there. -/
def Request.visit (request : Request) (schema : Schema) (s : WalkState) :
    WalkState × Option MissingType :=
  match h : schema.top? request.owner with
  | none => (s, none)
  | some ns => schema.visitNames ns (Schema.mem_spaces_of_top? h) request.typeNames s

namespace Schema

variable {schema : Schema}

/-! ## One visit -/

theorem visit_missing {frame : Frame schema} (h : frame.node? = none) (s : WalkState) :
    (schema.visit frame s).outcome =
      (s.touch frame.address.owner, some ⟨frame.address.owner, frame.address.name⟩) := by
  rw [visit]
  split
  · rfl
  · rename_i found
    simp [Frame.node?, found] at h

theorem visit_passed {frame : Frame schema} {s : WalkState} (hnode : frame.node?.isSome)
    (hpass : frame.message? = none ∨ frame.address ∈ s.visited) :
    (schema.visit frame s).outcome = (s.record frame.address, none) := by
  rw [← s.record_touch frame.address, visit]
  split
  · rename_i hnone
    simp [Frame.node?, hnone] at hnode
  · rename_i node hsome
    cases hm : node.message? with
    | none => rfl
    | some t =>
      have hseen : frame.address ∈ s.visited :=
        hpass.resolve_left (by simp [Frame.message?_of_child? hsome, hm])
      simp only [dif_pos hseen]
      rfl

theorem visit_followed {frame : Frame schema} {s : WalkState} {t : TypeDecl}
    (ht : frame.message? = some t) (hnew : frame.address ∉ s.visited) :
    (schema.visit frame s).outcome =
      (schema.visitFields t.fields ((s.record frame.address).expand frame.address)).outcome := by
  rw [← s.record_touch frame.address, visit]
  split
  · rename_i hnone
    simp [Frame.message?, Frame.node?, hnone] at ht
  · rename_i node hsome
    have hm : node.message? = some t := (Frame.message?_of_child? hsome).symm.trans ht
    simp only [hm, dif_neg hnew]
    rfl

/-! ## The recursion and the walk -/

/-- The frames that fields lead to. -/
def fieldFrames (schema : Schema) (fields : List Field) : List (Frame schema) :=
  (fields.filterMap (·.resolved)).filterMap (Frame.of? schema)

theorem fieldFrames_cons (field : Field) (rest : List Field) :
    schema.fieldFrames (field :: rest) =
      match field.resolved.bind (Frame.of? schema) with
      | none => schema.fieldFrames rest
      | some frame => frame :: schema.fieldFrames rest := by
  cases hresolved : field.resolved with
  | none => simp [fieldFrames, hresolved]
  | some address => cases hframe : Frame.of? schema address <;> simp [fieldFrames, hresolved, hframe]

theorem Frame.next_eq_fieldFrames {frame : Frame schema} {t : TypeDecl} (ht : frame.message? = some t) :
    frame.next = schema.fieldFrames t.fields := by
  simp [Frame.next, ht, fieldFrames, TypeDecl.references]

/-- Visiting a name is walking from its frame, and visiting fields is walking from theirs. -/
theorem visit_eq_walk_and : (∀ (frame : Frame schema) (s : WalkState),
    (schema.visit frame s).outcome = schema.walk [frame] s) ∧
    ∀ (fields : List Field) (s : WalkState),
      (schema.visitFields fields s).outcome = schema.walk (schema.fieldFrames fields) s := by
  apply visit.mutual_induct
  case case1 =>
    intro frame s hnode
    rw [visit_missing hnode]
    exact (walks_iff.1 (.missing hnode)).symm
  case case2 =>
    intro frame s node hnode hm
    have hsome := Frame.node?_isSome_of_child? hnode
    have hpass : frame.message? = none ∨ frame.address ∈ s.visited :=
      .inl ((Frame.message?_of_child? hnode).trans hm)
    rw [visit_passed hsome hpass]
    exact (walks_iff.1 (.pass hsome hpass .done)).symm
  case case3 =>
    intro frame s node hnode t hm hseen
    have hsome := Frame.node?_isSome_of_child? hnode
    rw [visit_passed hsome (.inr hseen)]
    exact (walks_iff.1 (.pass hsome (.inr hseen) .done)).symm
  case case4 =>
    intro frame s touched node hnode recorded t hm hnew ih
    have ht := (Frame.message?_of_child? hnode).trans hm
    have hmessage : frame.message?.isSome := by simp [ht]
    rw [visit_followed ht hnew, walk_follow hmessage hnew, List.append_nil, Frame.next_eq_fieldFrames ht]
    have hrecorded : recorded = s.record frame.address := s.record_touch frame.address
    rw [hrecorded] at ih
    exact ih
  case case5 =>
    intro s
    rw [visitFields, fieldFrames, List.filterMap_nil, List.filterMap_nil, walk]
    rfl
  case case6 =>
    intro s field rest hskip ih
    rw [visitFields, fieldFrames_cons, hskip]
    exact ih
  case case7 =>
    intro s field rest frame hframe s' grown hvisit ihFrame ihRest
    rw [hvisit] at ihFrame
    rw [visitFields, fieldFrames_cons, hframe]
    simp only [hvisit]
    rw [← List.singleton_append, walk_append, ← ihFrame]
    exact ihRest
  case case8 =>
    intro s field rest frame hframe s' missing grown hvisit ihFrame
    rw [hvisit] at ihFrame
    rw [visitFields, fieldFrames_cons, hframe]
    simp only [hvisit]
    rw [← List.singleton_append, walk_append, ← ihFrame]
    rfl

theorem visitNames_eq_walk {ns : Namespace} (hns : ns ∈ schema.spaces) (names : List String) :
    ∀ s, schema.visitNames ns hns names s = schema.walk (names.map fun name => ⟨ns, hns, name⟩) s := by
  induction names with
  | nil =>
    intro s
    rw [visitNames, List.map_nil, walk]
  | cons name rest ih =>
    intro s
    have hwalk := walk_append [⟨ns, hns, name⟩] (rest.map fun name => ⟨ns, hns, name⟩) s
    rw [visitNames, visit_eq_walk_and.1]
    simp only [ih]
    exact hwalk.symm

/-! ## What is followed -/

/-- A walk follows addresses that were not marked before, each once, and marks just these. -/
theorem Walks.follows_once {stack : List (Frame schema)} {s s' : WalkState} {out : Option MissingType}
    (h : schema.Walks stack s s' out) : ∃ fresh, s'.expanded = s.expanded ++ fresh ∧ fresh.Nodup ∧
      (∀ a ∈ fresh, a ∉ s.visited) ∧ ∀ a, a ∈ s'.visited ↔ a ∈ s.visited ∨ a ∈ fresh := by
  induction h with
  | done => exact ⟨[], by simp⟩
  | missing _ => exact ⟨[], by simp⟩
  | pass _ _ _ ih => exact ih
  | @follow frame stack s s' out _ hnew _ ih =>
    obtain ⟨fresh, hexpanded, hnodup, hdisjoint, hvisited⟩ := ih
    have hframe : frame.address ∉ fresh := fun hmem => hdisjoint _ hmem List.mem_cons_self
    refine ⟨frame.address :: fresh, ?_, List.nodup_cons.2 ⟨hframe, hnodup⟩, fun a ha => ?_, fun a => ?_⟩
    · rw [hexpanded]
      simp [WalkState.expand, WalkState.record]
    · rcases List.mem_cons.1 ha with rfl | ha
      · exact hnew
      · exact fun hmem => hdisjoint a ha (List.mem_cons_of_mem _ hmem)
    · rw [hvisited a]
      simp only [WalkState.expand, WalkState.record, List.mem_cons]
      tauto

/-- **The walk is the recursion.** For every schema, request and state the walk with the stack ends like the
recursion: with the same missing name or none, and in the same state, which holds the reachable names, the
marks and the order of following. What it follows it follows once, and nothing that was marked before. -/
theorem collect_eq_visit (schema : Schema) (request : Request) (s : WalkState) :
    schema.collect request s = request.visit schema s ∧
    ∃ fresh, (schema.collect request s).1.expanded = s.expanded ++ fresh ∧ fresh.Nodup ∧
      (∀ a ∈ fresh, a ∉ s.visited) ∧
      ∀ a, a ∈ (schema.collect request s).1.visited ↔ a ∈ s.visited ∨ a ∈ fresh := by
  constructor
  · rw [collect_eq_walk, Request.visit]
    split
    · rename_i htop
      rw [entries_of_top?_eq_none htop, walk]
    · rename_i ns htop
      rw [entries_of_top? htop, visitNames_eq_walk]
  · rw [collect_eq_walk]
    exact (walks_walk _ s).follows_once

end Schema

end SchemaClosure
