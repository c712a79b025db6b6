import SchemaClosure.Proofs.Reach.Closure
import SchemaClosure.Proofs.Reach.Prune

/-!
# What survives, path by path

`Schema.prune` decides at each place by the names in the set of the parent and by how full names start. Here
the same is said of whole paths. A path is `Named` when its last name is in the set of the path above it, and
what stands at a path with a named start is kept whole (`wholeAt_iff`). A path is `Entered` when it is the
start of a key of the set, and that is when its full name leads to an entry (`leadsFrom_fullName_iff`).

Main theorem `prune_survivors`: for every set, computed or not, which namespaces and types survive, and that
they are as they were and in the order in which they were.
-/

namespace SchemaClosure

namespace ReachableNames

/-- The last name of the path is in the set of the path above it. -/
def Named (r : ReachableNames) (path : List String) : Prop :=
  ∃ above name, above ≠ [] ∧ path = above ++ [name] ∧ name ∈ r.names (Text.join "." above)

/-- The path or one above it is named. -/
def NamedWithin (r : ReachableNames) (path : List String) : Prop :=
  ∃ above, above <+: path ∧ r.Named above

/-- Some key of the set, cut at its dots, starts with the path. -/
def Entered (r : ReachableNames) (path : List String) : Prop :=
  ∃ key ∈ r.owners, path <+: Text.pieces '.' key

instance (r : ReachableNames) (path : List String) : Decidable (r.Entered path) :=
  inferInstanceAs (Decidable (∃ key ∈ r.owners, path <+: Text.pieces '.' key))

theorem named_concat {r : ReachableNames} {path : List String} (hne : path ≠ []) {name : String} :
    r.Named (path ++ [name]) ↔ name ∈ r.names (Text.join "." path) := by
  constructor
  · rintro ⟨above, last, -, heq, hname⟩
    obtain ⟨rfl, hlast⟩ := List.append_inj' heq rfl
    cases hlast
    exact hname
  · exact fun hname => ⟨path, name, hne, rfl, hname⟩

theorem namedWithin_concat {r : ReachableNames} {path : List String} {name : String} :
    r.NamedWithin (path ++ [name]) ↔ r.Named (path ++ [name]) ∨ r.NamedWithin path := by
  simp only [NamedWithin, List.prefix_concat_iff, or_and_right, exists_or, exists_eq_left]

/-- Nothing is above a top-level namespace. -/
theorem not_namedWithin_singleton {r : ReachableNames} {name : String} : ¬ r.NamedWithin [name] := by
  rintro ⟨_, hprefix, above, last, hne, rfl, -⟩
  have hlength := hprefix.length_le
  cases above with
  | nil => exact hne rfl
  | cons first rest => simp at hlength

end ReachableNames

/-- What is left of a namespace: some of its children in their order, and among them some of its types, as
they were. -/
structure Namespace.LeftOf (left ns : Namespace) : Prop where
  name : left.name = ns.name
  fullName : left.fullName = ns.fullName
  options : left.options = ns.options
  children : (left.children.map Node.name).Sublist (ns.children.map Node.name)
  types : left.types.Sublist ns.types

theorem Namespace.LeftOf.refl (ns : Namespace) : ns.LeftOf ns :=
  ⟨rfl, rfl, rfl, List.Sublist.refl _, List.Sublist.refl _⟩

theorem Namespace.leftOf_prune (r : ReachableNames) (ns : Namespace) : (ns.prune r).LeftOf ns :=
  ⟨rfl, rfl, rfl, Node.names_pruneAll_sublist _, Node.filterMap_type?_pruneAll_sublist _⟩

namespace Schema

variable {schema : Schema} {r : ReachableNames} {path : List String} {ns : Namespace}

/-- What is kept whole stands at a path that is named or below one that is. -/
theorem wholeAt_iff (hcons : schema.Consistent) :
    schema.WholeAt r path ns ↔ schema.At path ns ∧ r.NamedWithin path := by
  constructor
  · intro h
    refine ⟨h.at, ?_⟩
    induction h with
    | named h hc hname =>
      rw [h.fullName_eq hcons] at hname
      exact ReachableNames.namedWithin_concat.2 (.inl ((ReachableNames.named_concat h.ne_nil).2 hname))
    | inside _ _ ih => exact ReachableNames.namedWithin_concat.2 (.inr ih)
  · rintro ⟨h, hnamed⟩
    induction h with
    | top _ => exact absurd hnamed ReachableNames.not_namedWithin_singleton
    | child h hc ih =>
      rcases ReachableNames.namedWithin_concat.1 hnamed with hnamed | hnamed
      · rw [ReachableNames.named_concat h.ne_nil, ← h.fullName_eq hcons] at hnamed
        exact .named h hc hnamed
      · exact .inside (ih hnamed) hc

/-- The start of the full name agrees with the start of the path. -/
theorem leadsFrom_fullName_iff (wf : schema.WellFormed) (h : schema.At path ns) :
    r.leadsFrom ns.fullName = true ↔ r.Entered path := by
  simp only [ReachableNames.leadsFrom_iff, ReachableNames.Entered, h.fullName_eq wf.toConsistent,
    Text.prefix_pieces_iff h.ne_nil (h.not_mem_dot wf.dotFree)]

/-- **Which namespaces survive**: what is kept whole, and what an entry leads through. -/
theorem exists_at_prune_iff (wf : schema.WellFormed) (h : schema.At path ns) :
    (∃ left, (schema.prune r).At path left) ↔ r.NamedWithin path ∨ r.Entered path := by
  constructor
  · rintro ⟨left, hleft⟩
    obtain ⟨ns', hat, ⟨hwhole, -⟩ | ⟨hlead, -⟩⟩ := at_of_at_prune hleft
    · exact .inl ((wholeAt_iff wf.toConsistent).1 hwhole).2
    · exact .inr ((leadsFrom_fullName_iff wf hat).1 hlead)
  · rintro (hnamed | hentered)
    · exact ⟨ns, at_prune_of_wholeAt wf.toConsistent ((wholeAt_iff wf.toConsistent).2 ⟨h, hnamed⟩)⟩
    · have hlead := (leadsFrom_fullName_iff wf h).2 hentered
      rcases at_prune_of_leadsFrom wf.toConsistent h hlead with h | h
      · exact ⟨ns, h⟩
      · exact ⟨ns.prune r, h⟩

/-- **Which types survive**: those in what is kept whole, and those in the set of their namespace. -/
theorem exists_type_prune_iff (wf : schema.WellFormed) (h : schema.At path ns) {t : TypeDecl}
    (ht : t ∈ ns.types) : (∃ left, (schema.prune r).At path left ∧ t ∈ left.types) ↔
      r.NamedWithin path ∨ t.name ∈ r.names (Text.join "." path) := by
  rw [exists_type_at_prune_iff wf.toConsistent, ← h.fullName_eq wf.toConsistent]
  constructor
  · rintro ⟨ns', hat, -, hstays⟩
    obtain rfl := h.unique wf.toConsistent hat
    exact hstays.imp_left fun hwhole => ((wholeAt_iff wf.toConsistent).1 hwhole).2
  · intro hstays
    exact ⟨ns, h, ht, hstays.imp_left fun hnamed => (wholeAt_iff wf.toConsistent).2 ⟨h, hnamed⟩⟩

/-- Every survivor was there before, and nothing of it has changed but what it has lost. -/
theorem leftOf_of_at_prune {left : Namespace} (h : (schema.prune r).At path left) :
    ∃ ns, schema.At path ns ∧ left.LeftOf ns := by
  obtain ⟨ns, hat, ⟨-, rfl⟩ | ⟨-, rfl⟩⟩ := at_of_at_prune h
  · exact ⟨left, hat, .refl left⟩
  · exact ⟨ns, hat, ns.leftOf_prune r⟩

/-- **Pruning keeps the named and what leads to them**, for every set of names. A namespace survives iff its
path or one above it is named or a key of the set starts with its path; a type survives iff its namespace
stands at or below a named path or it is in the set of its namespace. What survives is as it was, and in each
place in the same order. -/
theorem prune_survivors (wf : schema.WellFormed) (r : ReachableNames) :
    (∀ path ns, schema.At path ns →
      ((∃ left, (schema.prune r).At path left) ↔ r.NamedWithin path ∨ r.Entered path) ∧
      ∀ t ∈ ns.types, ((∃ left, (schema.prune r).At path left ∧ t ∈ left.types) ↔
        r.NamedWithin path ∨ t.name ∈ r.names (Text.join "." path))) ∧
    (∀ path left, (schema.prune r).At path left → ∃ ns, schema.At path ns ∧ left.LeftOf ns) ∧
    ((schema.prune r).namespaces.map Namespace.name).Sublist (schema.namespaces.map Namespace.name) := by
  refine ⟨fun path ns h => ⟨exists_at_prune_iff wf h, fun t ht => exists_type_prune_iff wf h ht⟩, ?_, ?_⟩
  · exact fun path left h => leftOf_of_at_prune h
  · exact names_prune_sublist schema r

/-- A set that no walk computes. Its last key goes on behind the full name of an inner namespace, but without
a dot. -/
def oddNames : ReachableNames := [("shop", ["archive"]), ("shop.admins", ["Entry"])]

/-- What is in the archive survives with it. The inner namespace does not survive, because the path of the
last key goes elsewhere. -/
theorem prune_survivors_sample :
    sample.WellFormed ∧
    (∃ left, (sample.prune oddNames).At ["shop", "archive"] left ∧
      ⟨"Box", "shop.archive", .message, [], [], []⟩ ∈ left.types) ∧
    ¬ ∃ left, (sample.prune oddNames).At ["shop", "admin"] left := by
  have wf : sample.WellFormed := by decide
  have harchive : sample.At ["shop", "archive"] _ := at_of_spaceAt? rfl
  have hadmin : sample.At ["shop", "admin"] _ := at_of_spaceAt? rfl
  have hsurvive := (prune_survivors wf oddNames).1
  have hnamed : oddNames.Named ["shop", "archive"] := ⟨["shop"], "archive", by simp, rfl, by decide⟩
  refine ⟨wf, ((hsurvive _ _ harchive).2 _ List.mem_cons_self).2 (.inl ⟨_, List.prefix_rfl, hnamed⟩), ?_⟩
  rw [(hsurvive _ _ hadmin).1, not_or]
  refine ⟨fun hwithin => ?_, by decide⟩
  have hwithin : oddNames.NamedWithin (["shop"] ++ ["admin"]) := hwithin
  rcases ReachableNames.namedWithin_concat.1 hwithin with hnamed | hwithin
  · rw [ReachableNames.named_concat (by simp)] at hnamed
    exact absurd hnamed (by decide)
  · exact ReachableNames.not_namedWithin_singleton hwithin

end Schema

end SchemaClosure
