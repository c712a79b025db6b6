import Mathlib.Data.List.Forall2
import SchemaClosure.Proofs.Reach.Closure
import SchemaClosure.Proofs.Reach.Prune

/-!
# Filtering one after the other

A walk sees of a schema only the nodes at the addresses that it comes to. `Matching` relates the frames of
two schemas that it cannot tell apart, and walks from matching stacks end alike (`Walks.transfer`).

A schema that was pruned to a set matches the schema itself on every closure within the set, so filtering
it finds and keeps the same (`filterAll_prune`). Main theorem `filterAll_compose`: filtering for some
requests and then for others that reach no further is filtering for the others alone.
-/

namespace SchemaClosure

namespace Schema

/-! ## Schemas that a walk cannot tell apart -/

/-- Frames with one address, the same message and matching frames wherever its fields refer to. -/
structure Matching {S T : Schema} (R : Frame S → Frame T → Prop) : Prop where
  address : ∀ {f g}, R f g → f.address = g.address
  node : ∀ {f g}, R f g → f.node?.isSome = g.node?.isSome
  message : ∀ {f g}, R f g → f.message? = g.message?
  reference : ∀ {f g t b}, R f g → f.message? = some t → b ∈ t.references →
    Option.Rel R (Frame.of? S b) (Frame.of? T b)

section

variable {S T : Schema} {R : Frame S → Frame T → Prop}

theorem forall₂_filterMap {references : List TypeAddress}
    (h : ∀ b ∈ references, Option.Rel R (Frame.of? S b) (Frame.of? T b)) :
    List.Forall₂ R (references.filterMap (Frame.of? S)) (references.filterMap (Frame.of? T)) := by
  induction references with
  | nil => exact .nil
  | cons b rest ih =>
    have ih := ih fun c hc => h c (List.mem_cons_of_mem _ hc)
    have hb := h b List.mem_cons_self
    cases hS : Frame.of? S b with
    | none =>
      rw [hS] at hb
      cases hT : Frame.of? T b with
      | none => simpa [hS, hT] using ih
      | some g =>
        rw [hT] at hb
        cases hb
    | some f =>
      rw [hS] at hb
      cases hT : Frame.of? T b with
      | none =>
        rw [hT] at hb
        cases hb
      | some g =>
        rw [hT] at hb
        cases hb with
        | some hfg => simpa [hS, hT] using ⟨hfg, ih⟩

theorem Matching.next (hR : Matching R) {f : Frame S} {g : Frame T} (h : R f g) :
    List.Forall₂ R f.next g.next := by
  have hmessage := hR.message h
  unfold Frame.next
  rw [← hmessage]
  cases ht : f.message? with
  | none => exact .nil
  | some t => exact forall₂_filterMap fun b hb => hR.reference h ht hb

/-- Walks from matching stacks collect the same and miss the same. -/
theorem Walks.transfer (hR : Matching R) {stack : List (Frame S)} {s s' : WalkState}
    {out : Option MissingType} (h : S.Walks stack s s' out) : ∀ {stack' : List (Frame T)},
    List.Forall₂ R stack stack' → T.Walks stack' s s' out := by
  induction h with
  | done =>
    rintro _ ⟨⟩
    exact .done
  | @missing f stack s hnode =>
    intro stack' hstack
    obtain ⟨g, rest, hfg, hrest, rfl⟩ := List.forall₂_cons_left_iff.1 hstack
    have hg : g.node? = none := by
      have := hR.node hfg
      rw [hnode] at this
      exact Option.not_isSome_iff_eq_none.1 (by simp [← this])
    rw [hR.address hfg]
    exact .missing hg
  | @pass f stack s s' out hnode hpass _ ih =>
    intro stack' hstack
    obtain ⟨g, rest, hfg, hrest, rfl⟩ := List.forall₂_cons_left_iff.1 hstack
    rw [hR.node hfg] at hnode
    rw [hR.message hfg, hR.address hfg] at hpass
    refine .pass hnode hpass ?_
    rw [← hR.address hfg]
    exact ih hrest
  | @follow f stack s s' out hmessage hnew _ ih =>
    intro stack' hstack
    obtain ⟨g, rest, hfg, hrest, rfl⟩ := List.forall₂_cons_left_iff.1 hstack
    rw [hR.message hfg] at hmessage
    rw [hR.address hfg] at hnew
    refine .follow hmessage hnew ?_
    rw [← hR.address hfg]
    exact ih (List.rel_append (hR.next hfg) hrest)

end

/-! ## Pruning and then filtering -/

variable {schema : Schema} {requests : List Request} {r r' : ReachableNames}

/-- Frames at one address of the closure with the same node. -/
def SameNode (schema : Schema) (requests : List Request) (r : ReachableNames) (f : Frame schema)
    (g : Frame (schema.prune r)) : Prop :=
  schema.Closure requests f.address ∧ f.address = g.address ∧ f.node? = g.node?

theorem matching_prune (wf : schema.WellFormed)
    (hr : ∀ a, schema.Closure requests a → a.name ∈ r'.names a.owner) :
    Matching (schema.SameNode requests r') where
  address h := h.2.1
  node h := by rw [h.2.2]
  message h := by rw [Frame.message?, Frame.message?, h.2.2]
  reference := by
    intro f g t b h ht hb
    cases hspace : schema.space? b.owner with
    | none =>
      have hS : Frame.of? schema b = none := by simp [Frame.of?_eq_none_iff, hspace]
      have hT : Frame.of? (schema.prune r') b = none := by
        simp [Frame.of?_eq_none_iff, space?_prune_eq_none wf hspace]
      rw [hS, hT]
      exact .none
    | some ns =>
      have hS := Frame.of?_of_space? hspace
      have hclosure : schema.Closure requests b := by
        have hmem : (⟨ns, mem_spaces_of_space? hspace, b.name⟩ : Frame schema) ∈ f.next :=
          Frame.mem_next.2 ⟨t, ht, b, hb, hS⟩
        have := closure_of_mem_next wf h.1 hmem
        rwa [Frame.address, fullName_of_space? wf.toConsistent hspace] at this
      obtain ⟨hns, hfull⟩ := (space?_eq_some_iff wf).1 hspace
      have hname := hr b hclosure
      rw [← hfull] at hname
      obtain ⟨ns', hspace', hchild⟩ := lookup_prune wf hns hname
      rw [hfull] at hspace'
      rw [hS, Frame.of?_of_space? hspace']
      refine .some ⟨?_, ?_, hchild.symm⟩
      · rwa [Frame.address, hfull]
      · rw [Frame.address, Frame.address, hfull, fullName_of_space? (wf.prune r').toConsistent hspace']

theorem forall₂_entries_prune (wf : schema.WellFormed)
    (hr : ∀ a, schema.Closure requests a → a.name ∈ r'.names a.owner) {request : Request}
    (hrequest : request ∈ requests) :
    List.Forall₂ (schema.SameNode requests r') (schema.entries request)
      ((schema.prune r').entries request) := by
  cases htop : schema.top? request.owner with
  | none =>
    have htop' : (schema.prune r').top? request.owner = none := by
      rw [Option.eq_none_iff_forall_ne_some] at htop ⊢
      intro ns' hns'
      obtain ⟨hmem, hname⟩ := (top?_eq_some_iff (wf.prune r').toConsistent).1 hns'
      obtain ⟨ns, hns, -, rfl⟩ := mem_namespaces_prune.1 hmem
      exact htop ns ((top?_eq_some_iff wf.toConsistent).2 ⟨hns, hname⟩)
    rw [entries_of_top?_eq_none htop, entries_of_top?_eq_none htop']
    exact .nil
  | some ns =>
    obtain ⟨hns, howner⟩ := (top?_eq_some_iff wf.toConsistent).1 htop
    have hclosure : ∀ name ∈ request.typeNames, schema.Closure requests ⟨request.owner, name⟩ :=
      fun name hname => .entry hrequest hns howner hname
    have hfull : ns.fullName = request.owner := (wf.top_fullName _ hns).trans howner
    by_cases hempty : request.typeNames = []
    · rw [entries_of_typeNames_eq_nil hempty, entries_of_typeNames_eq_nil hempty]
      exact .nil
    · obtain ⟨first, hfirst⟩ := List.exists_mem_of_ne_nil _ hempty
      have hlead : r'.leadsFrom ns.fullName = true := by
        rw [hfull]
        exact ReachableNames.leadsFrom_of_mem_names (hr _ (hclosure first hfirst))
      have htop' : (schema.prune r').top? request.owner = some (ns.prune r') :=
        (top?_eq_some_iff (wf.prune r').toConsistent).2
          ⟨mem_namespaces_prune.2 ⟨ns, hns, hlead, rfl⟩, howner⟩
      rw [entries_of_top? htop, entries_of_top? htop', List.forall₂_map_left_iff,
        List.forall₂_map_right_iff, List.forall₂_same]
      intro name hname
      have haddress := hclosure name hname
      rw [← hfull] at haddress
      exact ⟨haddress, rfl, (child?_prune (hr _ haddress)).symm⟩

/-- A schema that was pruned to a larger set is filtered like the schema itself. -/
theorem filterAll_prune (wf : schema.WellFormed) {pruned : Schema}
    (h : schema.filterAll requests = .ok (r, pruned)) (hr : r.Within r') :
    (schema.prune r').filterAll requests = .ok (r, pruned) := by
  have hclosure : ∀ a, schema.Closure requests a → a.name ∈ r'.names a.owner :=
    fun a ha => hr.names _ ((mem_reachable_iff wf h).2 ha)
  obtain ⟨s, hwalk, hs, hpruned⟩ := filterAll_eq_ok_iff.1 h
  refine filterAll_eq_ok_iff.2 ⟨s, hwalk.transfer (matching_prune wf hclosure) ?_, hs, ?_⟩
  · have hsame : List.Forall₂ (fun a b => a ∈ requests ∧ a = b) requests requests :=
      List.forall₂_same.2 fun request hrequest => ⟨hrequest, rfl⟩
    refine List.rel_flatMap hsame ?_
    rintro request _ ⟨hrequest, rfl⟩
    exact forall₂_entries_prune wf hclosure hrequest
  · rw [hpruned, prune_prune hr]

/-- **Filtering composes**: for requests that reach no further than others, it makes no difference to
filter for the others first; and filtering again for the same requests changes nothing. -/
theorem filterAll_compose (wf : schema.WellFormed) {wide narrow : List Request} {rw rn : ReachableNames}
    {pw pn : Schema} (hw : schema.filterAll wide = .ok (rw, pw))
    (hn : schema.filterAll narrow = .ok (rn, pn)) (h : rn.Within rw) :
    pw.filterAll narrow = .ok (rn, pn) ∧ pw.filterAll wide = .ok (rw, pw) := by
  obtain ⟨s, -, -, rfl⟩ := filterAll_eq_ok_iff.1 hw
  exact ⟨filterAll_prune wf hn h, filterAll_prune wf hw (.refl _)⟩

/-- Requests that reach less of the sample, an enum and a whole namespace. -/
def narrowRequests : List Request := [⟨"shop", ["archive", "State"]⟩]

theorem filterAll_compose_sample :
    sample.WellFormed ∧ ∃ pw pn,
      sample.filterAll sampleRequests =
        .ok ([("shop", ["Order", "Line", "State", "archive"]), ("shop.admin", ["Entry"])], pw) ∧
      sample.filterAll narrowRequests = .ok ([("shop", ["archive", "State"])], pn) ∧
      pw.filterAll narrowRequests = .ok ([("shop", ["archive", "State"])], pn) := by
  have wf : sample.WellFormed := by decide
  have hw : sample.filterAll sampleRequests = .ok (_, _) := filterAll_of_filterUpTo (n := 9) rfl
  have hn : sample.filterAll narrowRequests = .ok (_, _) := filterAll_of_filterUpTo (n := 2) rfl
  exact ⟨wf, _, _, hw, hn, (filterAll_compose wf hw hn (by decide)).1⟩

end Schema

end SchemaClosure
