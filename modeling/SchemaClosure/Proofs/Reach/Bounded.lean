import SchemaClosure.Proofs.Reach.Walk

/-!
# Walks with a bound

`Schema.walkUpTo` is the walk with a bound on the number of frames that it looks at. It runs by
computation alone, also inside of a proof, and what it finds is what the walk finds
(`walks_of_walkUpTo`, `filterAll_of_filterUpTo`).
-/

namespace SchemaClosure

namespace Frame

variable {schema : Schema}

/-- What a frame looks at, without the proof that it is there. -/
def target (frame : Frame schema) : Namespace × String := (frame.home, frame.name)

end Frame

namespace Schema

variable {schema : Schema}

/-- Looks at a stack of at most `n` names in namespaces. -/
def walkUpTo (schema : Schema) :
    Nat → List (Namespace × String) → WalkState → Option (WalkState × Option MissingType)
  | _, [], s => some (s, none)
  | 0, _ :: _, _ => none
  | n + 1, (home, name) :: stack, s =>
    match home.child? name with
    | none =>
      some ({ s with reachable := s.reachable.touch home.fullName }, some ⟨home.fullName, name⟩)
    | some node =>
      let s' := s.record ⟨home.fullName, name⟩
      match node.message? with
      | none => schema.walkUpTo n stack s'
      | some t =>
        if ⟨home.fullName, name⟩ ∈ s.visited then schema.walkUpTo n stack s'
        else
          let next := t.references.filterMap fun b => (schema.space? b.owner).map (·, b.name)
          schema.walkUpTo n (next ++ stack) (s'.expand ⟨home.fullName, name⟩)

/-- What a request puts on the stack. -/
def targets (schema : Schema) (request : Request) : List (Namespace × String) :=
  match schema.top? request.owner with
  | none => []
  | some ns => request.typeNames.map (ns, ·)

/-- What is reachable from requests and what stays of the schema, if at most `n` names are looked at. -/
def filterUpTo (schema : Schema) (n : Nat) (requests : List Request) :
    Option (Except MissingType (ReachableNames × Schema)) :=
  match schema.walkUpTo n (requests.flatMap schema.targets) .start with
  | none => none
  | some (_, some missing) => some (.error missing)
  | some (s, none) => some (.ok (s.reachable, schema.prune s.reachable))

theorem target_of? (b : TypeAddress) :
    (Frame.of? schema b).map Frame.target = (schema.space? b.owner).map (·, b.name) := by
  unfold Frame.of?
  split
  · rename_i h
    simp [h, Frame.target]
  · rename_i h
    simp [h]

theorem targets_eq (request : Request) :
    schema.targets request = (schema.entries request).map Frame.target := by
  obtain ⟨owner, typeNames⟩ := request
  rw [targets, entries]
  split <;> split <;> simp_all [Frame.target]

theorem walks_of_walkUpTo {n : Nat} : ∀ {stack : List (Frame schema)} {s s' : WalkState}
    {out : Option MissingType}, schema.walkUpTo n (stack.map Frame.target) s = some (s', out) →
    schema.Walks stack s s' out := by
  induction n with
  | zero =>
    intro stack s s' out h
    cases stack with
    | nil =>
      cases h
      exact .done
    | cons frame stack => cases h
  | succ n ih =>
    intro stack s s' out h
    cases stack with
    | nil =>
      cases h
      exact .done
    | cons frame stack =>
      simp only [List.map_cons, Frame.target, walkUpTo] at h
      split at h
      · rename_i hnode
        cases h
        exact .missing hnode
      · rename_i node hnode
        have hsome := Frame.node?_isSome_of_child? hnode
        split at h
        · rename_i hmessage
          exact .pass hsome (.inl ((Frame.message?_of_child? hnode).trans hmessage)) (ih h)
        · rename_i t hmessage
          have ht := (Frame.message?_of_child? hnode).trans hmessage
          split at h
          · rename_i hseen
            exact .pass hsome (.inr hseen) (ih h)
          · rename_i hnew
            refine .follow (by simp [ht]) hnew (ih ?_)
            rw [List.map_append, ← h]
            simp [Frame.next, ht, List.map_filterMap, target_of?, Frame.address]

theorem filterAll_of_filterUpTo {n : Nat} {requests : List Request}
    {result : Except MissingType (ReachableNames × Schema)}
    (h : schema.filterUpTo n requests = some result) : schema.filterAll requests = result := by
  have htargets : requests.flatMap schema.targets =
      (requests.flatMap schema.entries).map Frame.target := by
    rw [List.map_flatMap, funext targets_eq]
  unfold filterUpTo at h
  rw [htargets] at h
  split at h
  · cases h
  · rename_i s missing hwalk
    cases h
    exact filterAll_eq_error_iff.2 ⟨_, walks_of_walkUpTo hwalk⟩
  · rename_i s hwalk
    cases h
    exact filterAll_eq_ok_iff.2 ⟨_, walks_of_walkUpTo hwalk, rfl, rfl⟩

end Schema

end SchemaClosure
