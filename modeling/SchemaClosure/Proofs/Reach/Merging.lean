import SchemaClosure.Proofs.Reach.Closure
import SchemaClosure.Proofs.Reach.Prune

/-!
# Filtering for several requests

The walks for several requests share their marks, so a later one does not follow again what an earlier one has
followed. It misses nothing by that: what an earlier walk has followed is settled with all that it leads to.
The walk from the start and the walk from the shared state have stacks where one is the other without some
settled frames (`Thins`), and they miss the same name or both none (`Walks.missing_of_thins`).

Main theorem `filterAll_merge`: filtering for several requests is filtering for each of them and putting the
results together, and the first request that fails alone decides on the error.
-/

namespace SchemaClosure

/-- Requests that ask for the same names of the same namespaces. -/
def SameAsked (a b : List Request) : Prop :=
  ∀ owner name, (∃ q ∈ a, q.owner = owner ∧ name ∈ q.typeNames) ↔
    ∃ q ∈ b, q.owner = owner ∧ name ∈ q.typeNames

/-- The order of requests and their repetition make no difference. -/
theorem sameAsked_of_mem_iff {a b : List Request} (h : ∀ q, q ∈ a ↔ q ∈ b) : SameAsked a b := by
  intro owner name
  simp only [h]

/-- A request may be split into two. -/
theorem sameAsked_split {owner : String} {names xs ys : List String}
    (h : ∀ x, x ∈ names ↔ x ∈ xs ∨ x ∈ ys) (rest : List Request) :
    SameAsked (⟨owner, names⟩ :: rest) (⟨owner, xs⟩ :: ⟨owner, ys⟩ :: rest) := by
  intro n x
  simp only [List.exists_mem_cons_iff, h]
  tauto

/-! ## Sets of names with the same names in them -/

namespace Node

variable {r r' : ReachableNames}

mutual

theorem prune_congr (h : r.Within r') (h' : r'.Within r) {required required' : List String}
    (hreq : ∀ x, x ∈ required ↔ x ∈ required') (node : Node) :
    node.prune r required = node.prune r' required' := by
  match node with
  | .type t => simp [prune, hreq]
  | .space name fullName options children =>
    have hnames : ∀ x, x ∈ r.names fullName ↔ x ∈ r'.names fullName :=
      fun x => ⟨fun hx => h.names _ hx, fun hx => h'.names _ hx⟩
    have ih := pruneAll_congr h h' hnames children
    have hlead : r.leadsFrom fullName = r'.leadsFrom fullName :=
      Bool.eq_iff_iff.2 ⟨h.leadsFrom, h'.leadsFrom⟩
    simp [prune, hreq, hlead, ih]

theorem pruneAll_congr (h : r.Within r') (h' : r'.Within r) {required required' : List String}
    (hreq : ∀ x, x ∈ required ↔ x ∈ required') (nodes : List Node) :
    pruneAll r required nodes = pruneAll r' required' nodes := by
  match nodes with
  | [] => rfl
  | node :: rest => simp [pruneAll, prune_congr h h' hreq node, pruneAll_congr h h' hreq rest]

end

end Node

namespace Schema

variable {schema : Schema} {r r' : ReachableNames}

/-- What stays depends on the names in the set alone, not on their order. -/
theorem prune_congr (h : r.Within r') (h' : r'.Within r) : schema.prune r = schema.prune r' := by
  have hlead : ∀ fullName, r.leadsFrom fullName = r'.leadsFrom fullName :=
    fun _ => Bool.eq_iff_iff.2 ⟨h.leadsFrom, h'.leadsFrom⟩
  have hchildren : ∀ ns : Namespace, Node.pruneAll r (r.names ns.fullName) ns.children =
      Node.pruneAll r' (r'.names ns.fullName) ns.children :=
    fun ns => Node.pruneAll_congr h h' (fun _ => ⟨fun hx => h.names _ hx, fun hx => h'.names _ hx⟩) _
  simp [prune, hlead, hchildren]

/-! ## The closure of several requests -/

section

variable {requests wide narrow : List Request} {request : Request} {pruned : Schema}

theorem Closure.mono (h : ∀ owner name, (∃ q ∈ narrow, q.owner = owner ∧ name ∈ q.typeNames) →
    ∃ q ∈ wide, q.owner = owner ∧ name ∈ q.typeNames) {a : TypeAddress}
    (ha : schema.Closure narrow a) : schema.Closure wide a := by
  induction ha with
  | @entry q ns name hq hns howner hname =>
    obtain ⟨q', hq', hsame, hname'⟩ := h q.owner name ⟨q, hq, rfl, hname⟩
    rw [← hsame]
    exact .entry hq' hns (howner.trans hsame.symm) hname'
  | reference _ hholds hkind hf hresolved hstands ih =>
    exact .reference ih hholds hkind hf hresolved hstands

/-- What several requests lead to is what some one of them leads to. -/
theorem closure_iff_exists {a : TypeAddress} :
    schema.Closure requests a ↔ ∃ q ∈ requests, schema.Closure [q] a := by
  constructor
  · intro ha
    induction ha with
    | @entry q ns name hq hns howner hname => exact ⟨q, hq, .entry List.mem_cons_self hns howner hname⟩
    | reference _ hholds hkind hf hresolved hstands ih =>
      obtain ⟨q, hq, ha⟩ := ih
      exact ⟨q, hq, .reference ha hholds hkind hf hresolved hstands⟩
  · rintro ⟨q, hq, ha⟩
    refine ha.mono fun owner name => ?_
    rintro ⟨_, hmem, hnamed⟩
    obtain rfl := List.mem_singleton.1 hmem
    exact ⟨_, hq, hnamed⟩

/-- What leads nowhere else than requests that can be filtered for can be filtered for. -/
theorem exists_filterAll_of_closure_subset (wf : schema.WellFormed)
    (h : schema.filterAll wide = .ok (r, pruned))
    (hsub : ∀ a, schema.Closure narrow a → schema.Closure wide a) :
    ∃ r' pruned', schema.filterAll narrow = .ok (r', pruned') := by
  cases hnarrow : schema.filterAll narrow with
  | ok result => exact ⟨_, _, rfl⟩
  | error m =>
    obtain ⟨hclosure, hmiss⟩ := closure_misses_of_error wf hnarrow
    exact absurd hmiss (not_misses_of_closure wf h (hsub _ hclosure))

/-! ## One request alone -/

theorem filterOne_eq_filterAll (schema : Schema) (request : Request) :
    schema.filterOne request = schema.filterAll [request] := by
  rw [filterOne, filterAll, collectAll]
  rcases schema.collect request .start with ⟨s, _ | m⟩ <;> rfl

theorem filterAll_singleton_eq_ok_iff : schema.filterAll [request] = .ok (r, pruned) ↔
    (schema.collect request .start).2 = none ∧ r = (schema.collect request .start).1.reachable ∧
      pruned = schema.prune r := by
  rw [← filterOne_eq_filterAll, filterOne]
  rcases schema.collect request .start with ⟨s, _ | m⟩
  · simp only [Except.ok.injEq, Prod.mk.injEq, true_and]
    constructor
    · rintro ⟨rfl, rfl⟩
      exact ⟨rfl, rfl⟩
    · rintro ⟨rfl, rfl⟩
      exact ⟨rfl, rfl⟩
  · simp

theorem filterAll_singleton_eq_ok (h : (schema.collect request .start).2 = none) :
    schema.filterAll [request] = .ok ((schema.collect request .start).1.reachable,
      schema.prune (schema.collect request .start).1.reachable) :=
  filterAll_singleton_eq_ok_iff.2 ⟨h, rfl, rfl⟩

theorem filterAll_singleton_eq_error_iff {m : MissingType} :
    schema.filterAll [request] = .error m ↔ (schema.collect request .start).2 = some m := by
  rw [← filterOne_eq_filterAll, filterOne]
  rcases schema.collect request .start with ⟨s, _ | m'⟩ <;> simp

/-- Requests can be filtered for together iff each of them misses nothing alone. -/
theorem exists_filterAll_iff (wf : schema.WellFormed) :
    (∃ r pruned, schema.filterAll requests = .ok (r, pruned)) ↔
      ∀ q ∈ requests, (schema.collect q .start).2 = none := by
  constructor
  · rintro ⟨r, pruned, h⟩ q hq
    have hsub : ∀ a, schema.Closure [q] a → schema.Closure requests a :=
      fun a ha => closure_iff_exists.2 ⟨q, hq, ha⟩
    obtain ⟨r', pruned', h'⟩ := exists_filterAll_of_closure_subset wf h hsub
    exact (filterAll_singleton_eq_ok_iff.1 h').1
  · intro halone
    cases h : schema.filterAll requests with
    | ok result => exact ⟨_, _, rfl⟩
    | error m =>
      obtain ⟨hclosure, hmiss⟩ := closure_misses_of_error wf h
      obtain ⟨q, hq, ha⟩ := closure_iff_exists.1 hclosure
      exact absurd hmiss (not_misses_of_closure wf (filterAll_singleton_eq_ok (halone q hq)) ha)

/-- The names that requests find together are those that some one of them finds alone. -/
theorem mem_names_filterAll_iff (wf : schema.WellFormed)
    (h : schema.filterAll requests = .ok (r, pruned)) {owner name : String} :
    name ∈ r.names owner ↔
      ∃ q ∈ requests, name ∈ (schema.collect q .start).1.reachable.names owner := by
  have halone := (exists_filterAll_iff wf).1 ⟨_, _, h⟩
  rw [mem_reachable_iff (a := ⟨owner, name⟩) wf h, closure_iff_exists]
  refine exists_congr fun q => and_congr_right fun hq => ?_
  exact (mem_reachable_iff (a := ⟨owner, name⟩) wf (filterAll_singleton_eq_ok (halone q hq))).symm

theorem mem_owners_filterAll_iff (wf : schema.WellFormed)
    (h : schema.filterAll requests = .ok (r, pruned)) {owner : String} :
    owner ∈ r.owners ↔ ∃ q ∈ requests, owner ∈ (schema.collect q .start).1.reachable.owners := by
  have halone := (exists_filterAll_iff wf).1 ⟨_, _, h⟩
  rw [(filled_reachable h).mem_owners_iff]
  simp only [mem_names_filterAll_iff wf h]
  constructor
  · rintro ⟨x, q, hq, hx⟩
    exact ⟨q, hq, ReachableNames.mem_owners_of_mem_names hx⟩
  · rintro ⟨q, hq, howner⟩
    have hfilled := filled_reachable (filterAll_singleton_eq_ok (halone q hq))
    obtain ⟨x, hx⟩ := hfilled.mem_owners_iff.1 howner
    exact ⟨x, q, hq, hx⟩

/-- Requests that ask for the same find and keep the same. -/
theorem filterAll_of_sameAsked (wf : schema.WellFormed) (hsame : SameAsked wide narrow)
    (h : schema.filterAll wide = .ok (r, pruned)) :
    ∃ r', schema.filterAll narrow = .ok (r', pruned) ∧ r.Within r' ∧ r'.Within r := by
  have hclosure : ∀ a, schema.Closure wide a ↔ schema.Closure narrow a := fun a =>
    ⟨Closure.mono fun owner name => (hsame owner name).1, Closure.mono fun owner name => (hsame owner name).2⟩
  obtain ⟨r', pruned', h'⟩ := exists_filterAll_of_closure_subset wf h fun a => (hclosure a).2
  have hnames : ∀ owner name, name ∈ r.names owner ↔ name ∈ r'.names owner := by
    intro owner name
    rw [mem_reachable_iff (a := ⟨owner, name⟩) wf h, mem_reachable_iff (a := ⟨owner, name⟩) wf h', hclosure]
  have hwithin : r.Within r' := (filled_reachable h).within fun owner name => (hnames owner name).1
  have hwithin' : r'.Within r := (filled_reachable h').within fun owner name => (hnames owner name).2
  obtain rfl := eq_prune_of_filterAll h
  obtain rfl := eq_prune_of_filterAll h'
  rw [prune_congr hwithin hwithin']
  exact ⟨r', h', hwithin, hwithin'⟩

/-! ## Walks from shared states -/

/-- The second stack is the first one without some frames that are settled. -/
inductive Thins (s : WalkState) : List (Frame schema) → List (Frame schema) → Prop
  | nil : Thins s [] []
  | keep {f : Frame schema} {long short : List (Frame schema)} :
    Thins s long short → Thins s (f :: long) (f :: short)
  | drop {f : Frame schema} {long short : List (Frame schema)} :
    s.Settled f → Thins s long short → Thins s (f :: long) short

theorem Thins.keep_all {s : WalkState} {long short : List (Frame schema)} (h : Thins s long short)
    (fs : List (Frame schema)) : Thins s (fs ++ long) (fs ++ short) := by
  induction fs with
  | nil => exact h
  | cons f rest ih => exact .keep ih

theorem Thins.drop_all {s : WalkState} {long short fs : List (Frame schema)} (h : Thins s long short)
    (hsettled : ∀ f ∈ fs, s.Settled f) : Thins s (fs ++ long) short := by
  induction fs with
  | nil => exact h
  | cons f rest ih => exact .drop (hsettled f (by simp)) (ih fun g hg => hsettled g (by simp [hg]))

theorem Thins.refl (s : WalkState) (stack : List (Frame schema)) : Thins s stack stack := by
  simpa using Thins.nil.keep_all stack

/-- The marks of a state are those of two others together. -/
def Joins (t u s : WalkState) : Prop := ∀ a, a ∈ t.visited ↔ a ∈ u.visited ∨ a ∈ s.visited

theorem Joins.expand {t u s : WalkState} (h : Joins t u s) (address : TypeAddress) :
    Joins ((t.record address).expand address) ((u.record address).expand address) s := by
  intro a
  have := h a
  simp only [WalkState.expand, WalkState.record, List.mem_cons]
  tauto

theorem Joins.expand_marked {t u s : WalkState} (h : Joins t u s) {address : TypeAddress}
    (hmarked : address ∈ s.visited) : Joins t ((u.record address).expand address) s := by
  intro a
  simp only [h a, WalkState.expand, WalkState.record, List.mem_cons]
  constructor
  · tauto
  · rintro ((rfl | ha) | ha)
    · exact .inr hmarked
    · exact .inl ha
    · exact .inr ha

/-- A walk that starts with the marks of a covered state as well misses what the walk without them misses. -/
theorem Walks.missing_of_thins {s : WalkState} (hcov : s.Covered ([] : List (Frame schema)))
    {long : List (Frame schema)} {u u' : WalkState} {out : Option MissingType}
    (h : schema.Walks long u u' out) : ∀ {short : List (Frame schema)} {t : WalkState},
    Thins s long short → Joins t u s → (schema.walk short t).2 = out := by
  have hnext : ∀ f : Frame schema, f.address ∈ s.visited → ∀ g ∈ f.next, s.Settled g :=
    fun f hf g hg => (hcov f hf g hg).resolve_right (by simp)
  induction h with
  | done =>
    rintro _ t ⟨⟩ _
    rw [walk]
  | missing hnode =>
    rintro _ t (_ | _ | ⟨hsettled, _⟩) _
    · exact congrArg Prod.snd (walks_iff.1 (.missing hnode))
    · simpa [hnode] using hsettled.node
  | pass hnode hpass _ ih =>
    rintro _ t (_ | hthins | ⟨_, hthins⟩) hjoins
    · rw [walk_pass hnode (hpass.imp_right fun hf => (hjoins _).2 (.inl hf))]
      exact ih hthins hjoins
    · exact ih hthins hjoins
  | @follow f long u u' out hmessage hnew _ ih =>
    rintro _ t (_ | hthins | ⟨hsettled, hthins⟩) hjoins
    · by_cases hmarked : f.address ∈ s.visited
      · -- the shared walk passes the frame, and all that the other one finds behind it is settled
        obtain ⟨m, hm⟩ := Option.isSome_iff_exists.1 hmessage
        have hnode := Frame.node?_isSome_of_message? hm
        rw [walk_pass hnode (.inr ((hjoins _).2 (.inr hmarked)))]
        exact ih (hthins.drop_all (hnext f hmarked)) (hjoins.expand_marked hmarked)
      · have hnew' : f.address ∉ t.visited := fun hf => ((hjoins _).1 hf).elim hnew hmarked
        rw [walk_follow hmessage hnew']
        exact ih (hthins.keep_all f.next) (hjoins.expand f.address)
    · have hmarked := hsettled.followed hmessage
      exact ih (hthins.drop_all (hnext f hmarked)) (hjoins.expand_marked hmarked)

/-- After requests that miss nothing, a request misses what it misses alone. -/
theorem missing_collect (wf : schema.WellFormed) {s : WalkState}
    (hwalk : schema.Walks (requests.flatMap schema.entries) .start s none) (q : Request) :
    (schema.collect q s).2 = (schema.collect q .start).2 := by
  have hcov := (hwalk.covered wf (WalkState.covered_start _)).1
  have hjoins : Joins s .start s := by simp [Joins, WalkState.start]
  rw [collect_eq_walk, collect_eq_walk]
  exact (walks_walk _ _).missing_of_thins hcov (.refl s _) hjoins

/-- The error is that of the first request that fails alone. -/
theorem filterAll_eq_error_iff_first (wf : schema.WellFormed) {m : MissingType} :
    schema.filterAll requests = .error m ↔ ∃ before q after, requests = before ++ q :: after ∧
      (∀ p ∈ before, (schema.collect p .start).2 = none) ∧ (schema.collect q .start).2 = some m := by
  have hfails : ∀ {before q after m}, requests = before ++ q :: after →
      (∀ p ∈ before, (schema.collect p .start).2 = none) → (schema.collect q .start).2 = some m →
      schema.filterAll requests = .error m := by
    rintro before q after m rfl hbefore hq
    obtain ⟨r, pruned, hok⟩ := (exists_filterAll_iff wf).2 hbefore
    obtain ⟨s, hwalk, -, -⟩ := filterAll_eq_ok_iff.1 hok
    rw [← missing_collect wf hwalk, collect_eq_walk] at hq
    have hmiss := walks_walk (schema.entries q) s
    rw [hq] at hmiss
    refine filterAll_eq_error_iff.2 ⟨(schema.walk (schema.entries q) s).1, walks_iff.2 ?_⟩
    rw [List.flatMap_append, List.flatMap_cons, hwalk.append]
    exact hmiss.append_missing _
  constructor
  · intro h
    cases hfirst : requests.find? fun q => (schema.collect q .start).2.isSome with
    | none =>
      have halone : ∀ q ∈ requests, (schema.collect q .start).2 = none := by
        simpa using hfirst
      obtain ⟨r, pruned, hok⟩ := (exists_filterAll_iff wf).2 halone
      cases h.symm.trans hok
    | some q =>
      obtain ⟨hq, before, after, hsplit, hbefore⟩ := List.find?_eq_some_iff_append.1 hfirst
      obtain ⟨m', hm'⟩ := Option.isSome_iff_exists.1 hq
      have hbefore : ∀ p ∈ before, (schema.collect p .start).2 = none := by simpa using hbefore
      cases h.symm.trans (hfails hsplit hbefore hm')
      exact ⟨before, q, after, hsplit, hbefore, hm'⟩
  · rintro ⟨before, q, after, hsplit, hbefore, hq⟩
    exact hfails hsplit hbefore hq

/-! ## Filtering in place -/

/-- One more request, walked through the schema as it is. -/
def collectInPlace (s : WalkState) (request : Request) : EStateM MissingType Schema WalkState := do
  match (← get).collect request s with
  | (s', none) => pure s'
  | (_, some missing) => throw missing

/-- Filters a schema in place: it is read for one request after the other, and at last it is pruned. -/
def filterInPlace (requests : List Request) : EStateM MissingType Schema ReachableNames := do
  let s ← requests.foldlM collectInPlace .start
  modify fun schema => schema.prune s.reachable
  pure s.reachable

theorem run_collectInPlace (schema : Schema) (request : Request) (s : WalkState) :
    (collectInPlace s request).run schema =
      match schema.collect request s with
      | (s', none) => .ok s' schema
      | (_, some missing) => .error missing schema := by
  simp only [collectInPlace, EStateM.run_bind, EStateM.run_get]
  rcases schema.collect request s with ⟨s', _ | missing⟩ <;> rfl

theorem run_foldlM_collectInPlace (schema : Schema) (requests : List Request) (s : WalkState) :
    (requests.foldlM collectInPlace s).run schema =
      match schema.collectAll requests s with
      | (s', none) => .ok s' schema
      | (_, some missing) => .error missing schema := by
  induction requests generalizing s with
  | nil => rfl
  | cons request rest ih =>
    rw [List.foldlM_cons, collectAll, EStateM.run_bind, run_collectInPlace]
    rcases schema.collect request s with ⟨s', _ | missing⟩
    · exact ih s'
    · rfl

/-- Filtering in place leaves the filtered schema, and the schema as it was when a name is missing. -/
theorem run_filterInPlace (schema : Schema) (requests : List Request) :
    (filterInPlace requests).run schema =
      match schema.filterAll requests with
      | .ok (r, pruned) => .ok r pruned
      | .error missing => .error missing schema := by
  rw [filterInPlace, filterAll, EStateM.run_bind, run_foldlM_collectInPlace]
  rcases schema.collectAll requests .start with ⟨s, _ | missing⟩ <;> rfl

/-! ## Merging -/

/-- **Filtering for several requests** succeeds iff each of them misses nothing alone, and finds what they find
alone, put together. Other requests that ask for the same find the same and leave the same schema. When
filtering fails, it is with the name that the first request misses that misses one alone, and the schema stays
as it was. Filtering for one request is the case of a single one. -/
theorem filterAll_merge (wf : schema.WellFormed) (requests : List Request) :
    ((∃ r pruned, schema.filterAll requests = .ok (r, pruned)) ↔
      ∀ q ∈ requests, (schema.collect q .start).2 = none) ∧
    (∀ r pruned, schema.filterAll requests = .ok (r, pruned) →
      (∀ owner, owner ∈ r.owners ↔
        ∃ q ∈ requests, owner ∈ (schema.collect q .start).1.reachable.owners) ∧
      (∀ owner name, name ∈ r.names owner ↔
        ∃ q ∈ requests, name ∈ (schema.collect q .start).1.reachable.names owner) ∧
      ∀ others, SameAsked requests others →
        ∃ r', schema.filterAll others = .ok (r', pruned) ∧ r.Within r' ∧ r'.Within r) ∧
    (∀ m, schema.filterAll requests = .error m ↔
      ∃ before q after, requests = before ++ q :: after ∧
        (∀ p ∈ before, (schema.collect p .start).2 = none) ∧ (schema.collect q .start).2 = some m) ∧
    (∀ m, schema.filterAll requests = .error m → (filterInPlace requests).run schema = .error m schema) ∧
    ∀ request, schema.filterOne request = schema.filterAll [request] := by
  refine ⟨exists_filterAll_iff wf, ?_, fun m => filterAll_eq_error_iff_first wf, ?_,
    filterOne_eq_filterAll schema⟩
  · intro r pruned h
    exact ⟨fun owner => mem_owners_filterAll_iff wf h, fun owner name => mem_names_filterAll_iff wf h,
      fun others hsame => filterAll_of_sameAsked wf hsame h⟩
  · intro m h
    rw [run_filterInPlace, h]

/-- The requests of the sample in another order, one of them in two parts and one part of it twice. -/
def regroupedRequests : List Request :=
  [⟨"gone", ["Type"]⟩, ⟨"shop", ["archive"]⟩, ⟨"shop", ["Order"]⟩, ⟨"shop", ["archive"]⟩]

theorem sameAsked_regrouped : SameAsked sampleRequests regroupedRequests := by
  intro owner name
  have hsplit : SameAsked sampleRequests [⟨"shop", ["Order"]⟩, ⟨"shop", ["archive"]⟩, ⟨"gone", ["Type"]⟩] :=
    sameAsked_split (by simp) _
  have horder : SameAsked [⟨"shop", ["Order"]⟩, ⟨"shop", ["archive"]⟩, ⟨"gone", ["Type"]⟩] regroupedRequests :=
    sameAsked_of_mem_iff fun q => by simp only [regroupedRequests, List.mem_cons]; tauto
  exact (hsplit owner name).trans (horder owner name)

/-- The regrouped requests leave what the others leave. After a request for a missing name, the first such
request decides. -/
theorem filterAll_merge_sample :
    sample.WellFormed ∧
    (∃ r pruned r', sample.filterAll sampleRequests = .ok (r, pruned) ∧
      sample.filterAll regroupedRequests = .ok (r', pruned)) ∧
    sample.filterAll (sampleRequests ++ [⟨"shop", ["Coupon"]⟩, ⟨"shop", ["Basket"]⟩]) =
      .error ⟨"shop", "Coupon"⟩ := by
  have wf : sample.WellFormed := by decide
  have h : sample.filterAll sampleRequests = .ok (_, _) := filterAll_of_filterUpTo (n := 9) rfl
  have hmissing : sample.filterAll [⟨"shop", ["Coupon"]⟩] = .error ⟨"shop", "Coupon"⟩ :=
    filterAll_of_filterUpTo (n := 1) rfl
  obtain ⟨halone, hfound, -, -, -⟩ := filterAll_merge wf sampleRequests
  obtain ⟨r', h', -, -⟩ := (hfound _ _ h).2.2 _ sameAsked_regrouped
  refine ⟨wf, ⟨_, _, r', h, h'⟩, ?_⟩
  obtain ⟨-, -, herror, -, -⟩ :=
    filterAll_merge wf (sampleRequests ++ [⟨"shop", ["Coupon"]⟩, ⟨"shop", ["Basket"]⟩])
  exact (herror _).2 ⟨sampleRequests, _, _, rfl, halone.1 ⟨_, _, h⟩, filterAll_singleton_eq_error_iff.1 hmissing⟩

end

end Schema

end SchemaClosure
