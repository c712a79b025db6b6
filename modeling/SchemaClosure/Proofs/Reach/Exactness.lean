import SchemaClosure.Proofs.Reach.Reload
import SchemaClosure.Proofs.Reach.Survivors

/-!
# What a filtered schema consists of

The walk records addresses, under the full names of the namespaces that it looks up. Pruning never looks up:
it goes by the names of children and by how full names start. When requests name types only, every address
of the closure is that of a type (`Closure.type?_isSome`) and no namespace is kept whole, so both agree at
every depth: the types that stay are those that the walk has found (`mem_addresses_filtered_iff`), and a
namespace stays for the sake of one of them (`exists_types_within`).

Main theorem `filterAll_exact`: the filtered schema is the closure, with no empty namespaces around it.
-/

namespace SchemaClosure

namespace Schema

variable {schema pruned : Schema} {requests : List Request} {r : ReachableNames}

section

variable (hl : schema.Loaded) (wf : schema.WellFormed) (htypes : schema.NamesTypes requests)
include hl wf htypes

/-- Whatever requests for types lead to is a type. -/
theorem Closure.type?_isSome {a : TypeAddress} (ha : schema.Closure requests a) : (schema.type? a).isSome := by
  cases ha with
  | @entry request ns name hrequest hns howner hname =>
    have htop := (top?_eq_some_iff wf.toConsistent).2 ⟨hns, howner⟩
    obtain ⟨t, ht⟩ := htypes request hrequest ns htop name hname
    have hspace : schema.space? request.owner = some ns :=
      (space?_eq_some_iff wf).2 ⟨mem_spaces_of_mem_namespaces hns, (wf.top_fullName ns hns).trans howner⟩
    simp [type?, hspace, ht, Node.type?]
  | reference _ hholds _ hf hresolved _ => exact hl.type?_of_resolved hholds.mem_types hf hresolved

variable (h : schema.filterAll requests = .ok (r, pruned))
include h

/-- Nothing is kept whole by requests for types. -/
theorem not_wholeAt_of_namesTypes (path : List String) (ns : Namespace) : ¬ schema.WholeAt r path ns :=
  fun hwhole => not_keptWhole_of_namesTypes hl.toConsistent htypes ns ((keptWhole_iff hl wf h).2 ⟨path, hwhole⟩)

/-- **The types that stay** are those that the walk has found. -/
theorem mem_addresses_filtered_iff {a : TypeAddress} :
    a ∈ pruned.types.map TypeDecl.address ↔ a.name ∈ r.names a.owner := by
  obtain rfl := eq_prune_of_filterAll h
  have hfound : a ∈ (schema.prune r).types.map TypeDecl.address ↔ ∃ t, (schema.prune r).type? a = some t := by
    simp only [type?_eq_some_iff_address (wf.prune r) (hl.toMerged.prune r).owned, List.mem_map]
  rw [hfound]
  constructor
  · rintro ⟨t, ht⟩
    rcases ((type?_prune_eq_some_iff wf).1 ht).2 with hname | ⟨path, ns, hwhole, -⟩
    · exact hname
    · exact absurd hwhole (not_wholeAt_of_namesTypes hl wf htypes h path ns)
  · intro hname
    have hclosure := (mem_reachable_iff wf h).1 hname
    obtain ⟨t, ht⟩ := Option.isSome_iff_exists.1 (hclosure.type?_isSome hl wf htypes)
    exact ⟨t, (type?_prune_eq_some_iff wf).2 ⟨ht, .inl hname⟩⟩

/-- **No namespace stays empty**: it holds a type or a namespace below it does. -/
theorem exists_types_within {ns : Namespace} (hns : ns ∈ pruned.spaces) :
    ∃ inner ∈ ns.toNode.spaces, inner.types ≠ [] := by
  obtain rfl := eq_prune_of_filterAll h
  -- the namespace stays because an entry leads through it, and a name of this entry is a type that stays
  obtain ⟨path, hat⟩ := mem_spaces_iff_at.1 hns
  obtain ⟨before, hbefore, ⟨hwhole, -⟩ | ⟨hlead, -⟩⟩ := at_of_at_prune hat
  · exact absurd hwhole (not_wholeAt_of_namesTypes hl wf htypes h path before)
  obtain ⟨key, hkey, hprefix⟩ := (leadsFrom_fullName_iff wf hbefore).1 hlead
  obtain ⟨name, hname⟩ := (filled_reachable h).mem_owners_iff.1 hkey
  have hkept := (mem_addresses_filtered_iff (a := ⟨key, name⟩) hl wf htypes h).2 hname
  obtain ⟨t, ht, haddress⟩ := List.mem_map.1 hkept
  -- the namespace of that type stands where the key goes, at or below the path
  obtain ⟨target, inner, htarget, htype⟩ := mem_types_iff_at.1 ht
  have hkeyName : key = inner.fullName := by
    rw [← (hl.toMerged.prune r).owned inner htarget.mem_spaces t htype]
    exact (congrArg TypeAddress.owner haddress).symm
  rw [hkeyName, htarget.pieces_fullName (wf.prune r)] at hprefix
  have hinner := hat.mem_spaces_toNode (wf.toConsistent.prune r) htarget hprefix
  exact ⟨inner, hinner, List.ne_nil_of_mem htype⟩

end

/-- **A filtered schema is the closure**: when requests name types only, the addresses of its types are the
reachable ones, each once, every namespace in it holds a type or has one below it, and every type is as it
was. -/
theorem filterAll_exact {documents : List SchemaDocument} (hload : ofDocuments documents = .ok schema)
    (hdot : schema.DotFree) (htypes : schema.NamesTypes requests)
    (h : schema.filterAll requests = .ok (r, pruned)) :
    (∀ a, a ∈ pruned.types.map TypeDecl.address ↔ a.name ∈ r.names a.owner) ∧
      (pruned.types.map TypeDecl.address).Nodup ∧
      (∀ ns ∈ pruned.spaces, ∃ inner ∈ ns.toNode.spaces, inner.types ≠ []) ∧
      ∀ t ∈ pruned.types, schema.type? t.address = some t := by
  have hl := loaded_of_ofDocuments hload
  have wf : schema.WellFormed := ⟨hl.toConsistent, hdot⟩
  refine ⟨fun a => mem_addresses_filtered_iff hl wf htypes h, ?_,
    fun ns hns => exists_types_within hl wf htypes h hns, ?_⟩
  · obtain rfl := eq_prune_of_filterAll h
    exact addresses_nodup (wf.prune r) (hl.toMerged.prune r).owned
  · obtain rfl := eq_prune_of_filterAll h
    exact fun t ht => hl.type?_address hdot ((types_prune_sublist schema r).subset ht)

/-- Types of the store in two requests, and something from a namespace that is not there. -/
def storeRequests : List Request := [⟨"shop", ["Actor"]⟩, ⟨"gone", ["Type"]⟩, ⟨"shop", ["Order"]⟩]

/-- The entry stays, for the order refers to it, and what is not needed is gone. -/
theorem filterAll_exact_store :
    ofDocuments [adminDocument, orderDocument] = .ok store ∧ store.DotFree ∧ store.NamesTypes storeRequests ∧
    ∃ r pruned, store.filterAll storeRequests = .ok (r, pruned) ∧
      ⟨"shop.admin", "Entry"⟩ ∈ pruned.types.map TypeDecl.address ∧
      ⟨"shop", "Unused"⟩ ∉ pruned.types.map TypeDecl.address ∧
      ∀ ns ∈ pruned.spaces, ∃ inner ∈ ns.toNode.spaces, inner.types ≠ [] := by
  have hdot : store.DotFree := by decide
  have htypes : store.NamesTypes storeRequests := by decide
  have h : store.filterAll storeRequests = .ok (_, _) := filterAll_of_filterUpTo (n := 6) rfl
  obtain ⟨hmem, -, hwithin, -⟩ := filterAll_exact ofDocuments_store hdot htypes h
  refine ⟨ofDocuments_store, hdot, htypes, _, _, h, (hmem _).2 (by decide), fun hunused => ?_, hwithin⟩
  exact absurd ((hmem _).1 hunused) (by decide)

end Schema

end SchemaClosure
