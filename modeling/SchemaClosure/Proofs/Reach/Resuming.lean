import Mathlib.Data.List.Induction
import SchemaClosure.Proofs.Reach.Merging

/-!
# Walks that go on after a missing name

A walk that misses a name leaves what it has collected, and the next one may go on from there
(`Schema.resumed`). The marks that are left then say less than usual: a type may be marked although not all of
its references were followed. It leads to the missing name in that case (`Walks.tracked`), so what leads to no
missing name is settled as soon as it is marked. A request that misses nothing alone thus finds all that it
finds alone. A request that misses a name alone may pass over the way to it, for it does not go on behind what
is marked (`Route`).

Main theorem `agrees_iff_route`: when going on gives what the request gives alone. `not_agrees_dangling` is a
schema where it does not.
-/

namespace SchemaClosure

namespace Schema

variable {schema : Schema} {q : Request} {s : WalkState}

/-- What is collected after some requests, each going on from what the one before it has left, also if that
misses a name. -/
def resumed (schema : Schema) (requests : List Request) : WalkState :=
  requests.foldl (fun s q => (schema.collect q s).1) .start

@[simp] theorem resumed_concat (requests : List Request) (q : Request) :
    schema.resumed (requests ++ [q]) = (schema.collect q (schema.resumed requests)).1 := by
  simp [resumed]

/-- A request gives the same from a state on as it gives alone: it misses a name iff it does so alone, and if
it misses none it collects all that it collects alone. -/
structure Agrees (schema : Schema) (q : Request) (s : WalkState) : Prop where
  misses : (schema.collect q s).2.isSome ↔ (schema.collect q .start).2.isSome
  collects : (schema.collect q s).2 = none →
    ∀ a, (schema.collect q .start).1.Records a → (schema.collect q s).1.Records a

/-- What a request leads to without going on behind marked types. -/
inductive Route (schema : Schema) (q : Request) (marked : List TypeAddress) : TypeAddress → Prop
  | entry {ns : Namespace} {name : String} :
    ns ∈ schema.namespaces → ns.name = q.owner → name ∈ q.typeNames → Route schema q marked ⟨q.owner, name⟩
  | follow {a b : TypeAddress} :
    Route schema q marked a → a ∉ marked → schema.Refers a b → Route schema q marked b

theorem Route.closure {marked : List TypeAddress} {a : TypeAddress} (h : schema.Route q marked a) :
    schema.Closure [q] a := by
  induction h with
  | entry hns howner hname => exact .entry List.mem_cons_self hns howner hname
  | follow _ _ hrefers ih =>
    obtain ⟨t, f, ns, hholds, hkind, hfield, hresolved, hns⟩ := hrefers
    exact .reference ih hholds hkind hfield hresolved hns

section

variable (wf : schema.WellFormed)
include wf

theorem misses_iff_node? {f : Frame schema} : schema.Misses f.address ↔ f.node? = none := by
  constructor
  · rintro ⟨ns, hns, hmiss⟩
    obtain ⟨hmem, hname⟩ := (stands_iff wf.toConsistent).1 hns
    obtain rfl : ns = f.home := eq_of_fullName_eq wf hmem f.home_mem hname
    exact Namespace.child?_eq_none_iff.2 hmiss
  · intro hnone
    exact ⟨f.home, stands_home wf f, Namespace.child?_eq_none_iff.1 hnone⟩

/-! ## What a request misses from a state on -/

/-- A walk that misses nothing settles all that its request leads to without going on behind the marks that it
starts with. -/
theorem Route.settled {s' : WalkState} (hwalk : schema.Walks (schema.entries q) s s' none) {a : TypeAddress}
    (h : schema.Route q s.visited a) : ∃ f : Frame schema, f.address = a ∧ s'.Settled f := by
  -- what is followed is a new mark, and so all that it leads to was on the stack
  have hnew : s.Tracked (fun f => f.address ∉ s.visited) (fun _ _ => True) (schema.entries q) :=
    fun f hf hmem => absurd hmem hf
  have htracked := hwalk.tracked wf (fun _ _ _ => trivial) (fun _ _ _ _ _ => trivial) hnew
  induction h with
  | @entry ns name hns howner hname =>
    obtain ⟨f, hf, haddress⟩ := (exists_entry_iff wf (a := ⟨q.owner, name⟩)).2 ⟨rfl, hname, ns, hns, howner⟩
    exact ⟨f, haddress, hwalk.settles f hf⟩
  | follow _ hunmarked hrefers ih =>
    obtain ⟨f, rfl, hf⟩ := ih
    obtain ⟨g, hg, rfl⟩ := (refers_iff_next wf).1 hrefers
    have hfollowed := hf.followed (Frame.message?_isSome_of_mem_next hg)
    rcases htracked f hunmarked hfollowed g hg with hsettled | ⟨_, _, _, hout⟩
    · exact ⟨g, rfl, hsettled⟩
    · cases hout

/-- A request misses a name iff one is missing among what it leads to without going on behind the marks. -/
theorem isSome_collect_iff : (schema.collect q s).2.isSome ↔ ∃ a, schema.Route q s.visited a ∧ schema.Misses a := by
  have hwalk := walks_walk (schema.entries q) s
  rw [collect_eq_walk]
  constructor
  · intro hsome
    obtain ⟨m, hm⟩ := Option.isSome_iff_exists.1 hsome
    obtain ⟨-, hmiss⟩ := hwalk.sound_beyond (P := fun f => schema.Route q s.visited f.address)
      (fun f hf hnew g hg => .follow hf hnew ((refers_iff_next wf).2 ⟨g, hg, rfl⟩)) (List.Subset.refl _)
      (fun f hf => by
        obtain ⟨howner, hname, ns, hns, hnsName⟩ := (exists_entry_iff wf).1 ⟨f, hf, rfl⟩
        have hroute : schema.Route q s.visited ⟨q.owner, f.address.name⟩ := .entry hns hnsName hname
        rwa [← howner] at hroute)
    obtain ⟨f, hroute, -, hnode⟩ := hmiss m hm
    exact ⟨f.address, hroute, (misses_iff_node? wf).2 hnode⟩
  · rintro ⟨a, hroute, hmisses⟩
    by_contra hnone
    rw [Option.not_isSome_iff_eq_none] at hnone
    rw [hnone] at hwalk
    obtain ⟨f, rfl, hf⟩ := hroute.settled wf hwalk
    simpa [(misses_iff_node? wf).1 hmisses] using hf.node

theorem isSome_collect_start_iff :
    (schema.collect q .start).2.isSome ↔ ∃ a, schema.Closure [q] a ∧ schema.Misses a := by
  have h := (filterAll_closure wf [q]).1
  rw [exists_filterAll_iff wf, List.forall_mem_singleton] at h
  rw [← not_iff_not, Option.not_isSome_iff_eq_none, h]
  simp

/-! ## Requests that miss nothing alone -/

/-- After any requests, what the marked part of a closure with nothing missing leads to is settled. -/
theorem settled_resumed (hpresent : ∀ a, schema.Closure [q] a → ¬ schema.Misses a) (requests : List Request)
    {f g : Frame schema} (hf : schema.Closure [q] f.address)
    (hmarked : f.address ∈ (schema.resumed requests).visited) (hg : g ∈ f.next) :
    (schema.resumed requests).Settled g := by
  induction requests using List.reverseRecOn generalizing f g with
  | nil => cases hmarked
  | append_singleton before p ih =>
    rw [resumed_concat, collect_eq_walk] at hmarked ⊢
    have hbefore : (schema.resumed before).Tracked (fun f => schema.Closure [q] f.address)
        (fun f x => schema.Closure [q] f.address → schema.Closure [q] x.address) (schema.entries p) :=
      fun f hf hmarked g hg => .inl (ih hf hmarked hg)
    have hafter := (walks_walk (schema.entries p) (schema.resumed before)).tracked wf
      (fun f g hg hf => closure_of_mem_next wf hf hg)
      (fun f g hleads x hx hf => closure_of_mem_next wf (hleads hf) hx) hbefore f hf hmarked g hg
    refine hafter.resolve_right ?_
    rintro ⟨x, hx, hnode, -⟩
    exact hpresent _ (hx hf) ((misses_iff_node? wf).2 hnode)

/-- After any requests, a request that misses nothing alone settles its closure. -/
theorem Closure.settled_resumed (hpresent : ∀ a, schema.Closure [q] a → ¬ schema.Misses a)
    (before : List Request) (hnone : (schema.collect q (schema.resumed before)).2 = none) {a : TypeAddress}
    (h : schema.Closure [q] a) :
    ∃ f : Frame schema, f.address = a ∧ (schema.resumed (before ++ [q])).Settled f := by
  induction h with
  | @entry request ns name hrequest hns howner hname =>
    obtain rfl := List.mem_singleton.1 hrequest
    obtain ⟨f, hf, haddress⟩ :=
      (exists_entry_iff wf (a := ⟨request.owner, name⟩)).2 ⟨rfl, hname, ns, hns, howner⟩
    have hwalk := walks_walk (schema.entries request) (schema.resumed before)
    rw [← collect_eq_walk, hnone] at hwalk
    exact ⟨f, haddress, by simpa using hwalk.settles f hf⟩
  | @reference a b t field ns ha hholds hkind hfield hresolved hns ih =>
    obtain ⟨f, rfl, hf⟩ := ih
    obtain ⟨g, hg, rfl⟩ := (refers_iff_next wf).1 ⟨t, field, ns, hholds, hkind, hfield, hresolved, hns⟩
    have hfollowed := hf.followed (Frame.message?_isSome_of_mem_next hg)
    exact ⟨g, rfl, Schema.settled_resumed wf hpresent _ ha hfollowed hg⟩

/-- **Going on after missing names**: after any requests, a request gives what it gives alone unless it misses
a name alone and each way to a missing name goes on behind a type that an earlier request has marked. -/
theorem agrees_iff_route (before : List Request) (q : Request) :
    schema.Agrees q (schema.resumed before) ↔
      ((∃ a, schema.Closure [q] a ∧ schema.Misses a) →
        ∃ a, schema.Route q (schema.resumed before).visited a ∧ schema.Misses a) := by
  rw [← isSome_collect_start_iff wf, ← isSome_collect_iff wf]
  constructor
  · intro h
    exact h.misses.2
  · intro hroute
    have hmisses : (schema.collect q (schema.resumed before)).2.isSome ↔ (schema.collect q .start).2.isSome := by
      refine ⟨fun hsome => ?_, hroute⟩
      obtain ⟨a, ha, hmiss⟩ := (isSome_collect_iff wf).1 hsome
      exact (isSome_collect_start_iff wf).2 ⟨a, ha.closure, hmiss⟩
    refine ⟨hmisses, fun hnone a ha => ?_⟩
    have halone : (schema.collect q .start).2 = none := by
      rw [← Option.not_isSome_iff_eq_none, ← hmisses, hnone]
      simp
    have hfilter := filterAll_singleton_eq_ok halone
    have hclosure : schema.Closure [q] a := (mem_reachable_iff wf hfilter).1 ha
    obtain ⟨f, rfl, hf⟩ := hclosure.settled_resumed wf (fun a ha => not_misses_of_closure wf hfilter ha) before hnone
    simpa using hf.records

end

/-! ### A message that refers to a missing name -/

theorem collect_of_walkUpTo {n : Nat} {out : Option MissingType} {s' : WalkState}
    (h : schema.walkUpTo n (schema.targets q) s = some (s', out)) : schema.collect q s = (s', out) := by
  rw [targets_eq] at h
  rw [collect_eq_walk]
  exact walks_iff.1 (walks_of_walkUpTo h)

/-- `Order` refers to a name that is not there, and `Cart` refers to it and to `Order`. -/
def carts : Schema :=
  ⟨[⟨"shop", "shop", [], [
    sampleMessage "shop" "Order" [sampleField "lost" "Lost" (some ⟨"shop", "Lost"⟩)],
    sampleMessage "shop" "Cart" [
      sampleField "order" "Order" (some ⟨"shop", "Order"⟩),
      sampleField "lost" "Lost" (some ⟨"shop", "Lost"⟩)]]⟩]⟩

/-- What `Order` leaves although it misses a name. -/
theorem collect_carts :
    carts.collect ⟨"shop", ["Order"]⟩ .start =
      (⟨[("shop", ["Order"])], [⟨"shop", "Order"⟩], [⟨"shop", "Order"⟩]⟩, some ⟨"shop", "Lost"⟩) :=
  collect_of_walkUpTo (n := 2) rfl

theorem resumed_carts :
    carts.resumed [⟨"shop", ["Order"]⟩] = ⟨[("shop", ["Order"])], [⟨"shop", "Order"⟩], [⟨"shop", "Order"⟩]⟩ :=
  congrArg Prod.fst collect_carts

/-- After `Order`, going on with `Cart` misses the name as `Cart` does alone, for it refers to the name itself. -/
theorem agrees_carts :
    carts.WellFormed ∧ carts.Agrees ⟨"shop", ["Cart"]⟩ (carts.resumed [⟨"shop", ["Order"]⟩]) ∧
    (carts.collect ⟨"shop", ["Cart"]⟩ (carts.resumed [⟨"shop", ["Order"]⟩])).2 = some ⟨"shop", "Lost"⟩ := by
  have wf : carts.WellFormed := by decide
  have hcart : (carts.collect ⟨"shop", ["Cart"]⟩ (carts.resumed [⟨"shop", ["Order"]⟩])).2 =
      some ⟨"shop", "Lost"⟩ := by
    rw [resumed_carts]
    exact congrArg Prod.snd (collect_of_walkUpTo (n := 3) rfl)
  refine ⟨wf, (agrees_iff_route wf _ _).2 fun _ => ?_, hcart⟩
  exact (isSome_collect_iff wf).1 (by rw [hcart]; rfl)

/-- `Order` once more misses nothing, for it has a mark by now. -/
theorem not_agrees_dangling :
    carts.WellFormed ∧ ¬ carts.Agrees ⟨"shop", ["Order"]⟩ (carts.resumed [⟨"shop", ["Order"]⟩]) := by
  have hagain : (carts.collect ⟨"shop", ["Order"]⟩ (carts.resumed [⟨"shop", ["Order"]⟩])).2 = none := by
    rw [resumed_carts]
    exact congrArg Prod.snd (collect_of_walkUpTo (n := 1) rfl)
  refine ⟨by decide, fun h => ?_⟩
  have hmisses := h.misses.2 (by rw [collect_carts]; rfl)
  rw [hagain] at hmisses
  cases hmisses

end Schema

end SchemaClosure
