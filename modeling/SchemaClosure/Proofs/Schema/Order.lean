import Mathlib.Tactic.Choose
import SchemaClosure.Proofs.Document.Keys
import SchemaClosure.Proofs.Schema.Entries

/-!
# The order of documents

When all top-level keys are texts, what documents say about a path adds up, and in which order does not matter
to whether it settles nor to which type stands there (`Entity.settle_perm`). The references follow, as they
depend on which types there are. Only the order of children may differ, and options that several documents
declare.

Main theorem `ofDocuments_perm`.
-/

namespace SchemaClosure

open SchemaDocument (allEntries)

/-- When at most one element gives anything, the order does not matter to what all give. -/
theorem flatMap_eq_of_perm {α β : Type} {g : α → List β} {a b : List α} (hperm : a.Perm b)
    (h : a.Pairwise fun x y => g x = [] ∨ g y = []) : a.flatMap g = b.flatMap g := by
  induction hperm with
  | nil => rfl
  | cons x _ ih => rw [List.flatMap_cons, List.flatMap_cons, ih (List.pairwise_cons.1 h).2]
  | swap x y rest =>
    rcases (List.pairwise_cons.1 h).1 x List.mem_cons_self with hnone | hnone <;>
      simp [List.flatMap_cons, hnone]
  | trans hab _ ihab ihbc => exact (ihab h).trans (ihbc ((hab.pairwise_iff fun {x y} => Or.symm).1 h))

/-- The statements record an entry, and merging the entry adds them to whatever is there. -/
structure TopEntry.States (entry : TopEntry) (statements : List Statement) : Prop where
  recorded : ∃ name own, entry.key.label? = some name ∧ entry.value.Records own ∧
    statements = own.map (Statement.under 0 name)
  added : ∀ schema : Schema, schema.Merged →
    Adds Schema.look? schema.look? statements (schema.mergeEntry entry)

/-- What a document says about a path, when its entries make the statements. -/
def SchemaDocument.saying (statements : TopEntry → List Statement) (path : List String)
    (document : SchemaDocument) : List Entity :=
  Statement.about (document.entries.flatMap statements) path

/-- The options that a document declares for the namespace at a path, in order. -/
def SchemaDocument.optionsAt (statements : TopEntry → List Statement) (path : List String)
    (document : SchemaDocument) : Mapping :=
  ((document.saying statements path).filterMap Entity.options?).flatten

/-- The document declares an option of the namespace at a path. -/
def SchemaDocument.DeclaresOption (document : SchemaDocument) (path : List String) (key : Scalar) : Prop :=
  ∃ place keys content value, DeclaredIn document.entries place keys (.space content) ∧
    Scalar.Label keys path ∧ (key, value) ∈ content.part "options"

namespace Schema

variable {documents others : List SchemaDocument} {statements : TopEntry → List Statement}

/-! ## What documents say about a path -/

/-- Entries under texts that merge make statements. -/
theorem exists_states {entries : List TopEntry} (htext : ∀ entry ∈ entries, entry.key.isText = true) :
    ∀ {schema merged : Schema}, schema.Merged → entries.foldlM mergeEntry schema = .ok merged →
      ∀ entry ∈ entries, ∃ statements, entry.States statements := by
  induction entries with
  | nil => exact fun _ _ _ h => nomatch h
  | cons first rest ih =>
    intro schema merged hschema h entry hentry
    simp only [List.foldlM_cons, bind_eq_ok_iff] at h
    obtain ⟨inner, hinner, h⟩ := h
    rcases List.mem_cons.1 hentry with rfl | hentry
    · rcases mergeEntry_uniform entry with hfail | ⟨name, own, hname, hown, hadds⟩
      · obtain ⟨e, he⟩ := hfail schema hschema
        cases hinner.symm.trans he
      · refine ⟨_, ⟨name, own, hname, hown, rfl⟩, fun schema hschema => ?_⟩
        have hwithout : schema.look?.without entry = schema.look? := by
          funext path
          rw [Layout.without, if_neg]
          rintro ⟨hnot, -⟩
          rw [htext entry hentry] at hnot
          cases hnot
        have h := hadds schema hschema 0
        rwa [hwithout] at h
    · exact ih (fun other hother => htext other (List.mem_cons_of_mem _ hother)) (hschema.mergeEntry hinner) h
        entry hentry

theorem about_flatMap (path : List String) : Statement.about ((allEntries documents).flatMap statements) path =
    documents.flatMap (SchemaDocument.saying statements path) := by
  unfold allEntries SchemaDocument.saying
  induction documents with
  | nil => rfl
  | cons document rest ih =>
    rw [List.flatMap_cons, List.flatMap_append, Statement.about_append, ih, List.flatMap_cons]

theorem look?_mk_nil : (Schema.mk []).look? = fun _ => none := by
  funext path
  cases path <;> rfl

/-- Merging the entries of documents settles what the documents say about each path, or fails where that
clashes. -/
theorem adds_allEntries (hstates : ∀ entry ∈ allEntries documents, entry.States (statements entry)) :
    Adds Schema.look? (fun _ => none) ((allEntries documents).flatMap statements)
      ((allEntries documents).foldlM mergeEntry ⟨[]⟩) := by
  rw [← look?_mk_nil]
  exact mergeEntries_adds (fun entry hentry => (hstates entry hentry).added) _ merged_empty

/-- Documents that merge in one order merge in any other, and in both orders what they say about each path
settles. -/
theorem mergeAll_perm (hperm : documents.Perm others)
    (htext : ∀ entry ∈ allEntries documents, entry.key.isText = true) {merged : Schema}
    (h : mergeAll ⟨[]⟩ documents = .ok merged) :
    ∃ merged' statements, mergeAll ⟨[]⟩ others = .ok merged' ∧
      (∀ entry ∈ allEntries documents, entry.States (statements entry)) ∧
      ∀ path, Entity.settle none (documents.flatMap (SchemaDocument.saying statements path)) =
          some (merged.look? path) ∧
        Entity.settle none (others.flatMap (SchemaDocument.saying statements path)) =
          some (merged'.look? path) := by
  obtain ⟨hreadable, hentries⟩ := mergeAll_eq_ok_iff.1 h
  choose! statements hstates using exists_states htext merged_empty hentries
  have hsettled := (adds_allEntries hstates).settled merged hentries
  have hpermEntries : (allEntries documents).Perm (allEntries others) := hperm.flatMap_right _
  have hadds := adds_allEntries fun entry hentry => hstates entry (hpermEntries.mem_iff.2 hentry)
  simp only [about_flatMap] at hsettled
  cases hothers : (allEntries others).foldlM mergeEntry ⟨[]⟩ with
  | error e =>
    obtain ⟨path, hclash⟩ := hadds.clash e hothers
    rw [about_flatMap] at hclash
    -- what clashes at a path clashes there in every order
    obtain ⟨other, hother, -⟩ := Entity.settle_perm (hperm.flatMap_right _) (hsettled path)
    cases hclash.symm.trans hother
  | ok merged' =>
    refine ⟨merged', statements, mergeAll_eq_ok_iff.2 ⟨?_, hothers⟩, hstates, fun path => ⟨hsettled path, ?_⟩⟩
    · exact fun document hdocument => hreadable document (hperm.mem_iff.2 hdocument)
    · have hsettled' := hadds.settled merged' hothers path
      rwa [about_flatMap] at hsettled'

/-! ## Types and references -/

variable {S T : Schema}

/-- The same types stand at the same paths. -/
def SameTypes (S T : Schema) : Prop :=
  ∀ path, (S.look? path).bind Entity.type? = (T.look? path).bind Entity.type?

theorem look?_eq_type_iff {path : List String} {t : TypeDecl} :
    S.look? path = some (.type t) ↔ (S.look? path).bind Entity.type? = some t := by
  simp [Option.bind_eq_some_iff, Entity.type?_eq_some_iff]

theorem mem_types_iff_look? (hcons : S.Consistent) {t : TypeDecl} :
    t ∈ S.types ↔ ∃ path name, S.look? (path ++ [name]) = some (.type t) := by
  simp only [mem_types_iff_at, look?_concat_eq_type_iff hcons]
  constructor
  · rintro ⟨path, ns, hat, ht⟩
    exact ⟨path, t.name, ns, hat, ht, rfl⟩
  · rintro ⟨path, -, ns, hat, ht, -⟩
    exact ⟨path, ns, hat, ht⟩

theorem SameTypes.isSome_type? (h : S.SameTypes T) (a : TypeAddress) :
    (S.type? a).isSome = (T.type? a).isSome := by
  rw [type?_eq_look?, type?_eq_look?, h]

theorem SameTypes.mem_types_iff (h : S.SameTypes T) (hS : S.Consistent) (hT : T.Consistent) {t : TypeDecl} :
    t ∈ S.types ↔ t ∈ T.types := by
  simp only [mem_types_iff_look? hS, mem_types_iff_look? hT, look?_eq_type_iff, h _]

/-- The references of types depend only on which types stand where. -/
theorem SameTypes.resolveType_eq (h : S.SameTypes T) : S.resolveType = T.resolveType := by
  funext t
  unfold resolveType
  congr 2
  funext f
  exact resolveField_congr h.isSome_type? t.owner f

theorem SameTypes.resolveAll (h : S.SameTypes T) : S.resolveAll.SameTypes T.resolveAll := by
  have hbind : ∀ (S : Schema) (path : List String), (S.resolveAll.look? path).bind Entity.type? =
      ((S.look? path).bind Entity.type?).map S.resolveType := by
    intro S path
    rw [look?_resolveAll]
    rcases S.look? path with - | - | - <;> rfl
  intro path
  rw [hbind, hbind, h, h.resolveType_eq]

/-! ## Options -/

theorem flatten_options_flatMap (path : List String) :
    ((documents.flatMap (SchemaDocument.saying statements path)).filterMap Entity.options?).flatten =
      documents.flatMap (SchemaDocument.optionsAt statements path) := by
  rw [List.filterMap_flatMap]
  simp only [List.flatMap_def, List.flatten_flatten, List.map_map, Function.comp_def]
  rfl

/-- The options that are stated are declared. -/
theorem declaresOption_of_mem {document : SchemaDocument}
    (hstates : ∀ entry ∈ document.entries, entry.States (statements entry)) {path : List String}
    {option : Scalar × Value} (h : option ∈ document.optionsAt statements path) :
    document.DeclaresOption path option.1 := by
  obtain ⟨options, hoptions, hmem⟩ := List.mem_flatten.1 h
  obtain ⟨e, he, hspace⟩ := List.mem_filterMap.1 hoptions
  obtain rfl := Entity.options?_eq_some_iff.1 hspace
  obtain ⟨s, hs, rfl, hentity⟩ := Statement.mem_about.1 he
  obtain ⟨entry, hentry, hs⟩ := List.mem_flatMap.1 hs
  obtain ⟨name, own, hname, hown, hstatements⟩ := (hstates entry hentry).recorded
  rw [hstatements] at hs
  obtain ⟨inner, hinner, rfl⟩ := List.mem_map.1 hs
  obtain ⟨keys, d, hdeclares, hgives⟩ := hown.declared inner hinner
  have hentity : inner.entity = .space options := hentity
  obtain ⟨content, rfl⟩ := (hentity ▸ hgives).eq_space
  obtain ⟨number, hnumber⟩ := List.getElem?_of_mem hentry
  obtain ⟨hkeys, hsame⟩ := Declaration.gives_space_iff.1 (hgives.under hname)
  cases hentity.symm.trans hsame
  exact ⟨number :: inner.place, entry.key :: keys, content, option.2, .inside hnumber hdeclares, hkeys, hmem⟩

/-- Options that at most one document declares stay as they are, in their order. -/
theorem filter_options_eq (hperm : documents.Perm others)
    (hstates : ∀ entry ∈ allEntries documents, entry.States (statements entry)) {path : List String}
    (p : Scalar → Bool)
    (h : documents.Pairwise fun a b => ¬ ((∃ key, p key = true ∧ a.DeclaresOption path key) ∧
      ∃ key, p key = true ∧ b.DeclaresOption path key)) :
    (documents.flatMap (SchemaDocument.optionsAt statements path)).filter (fun option => p option.1) =
      (others.flatMap (SchemaDocument.optionsAt statements path)).filter fun option => p option.1 := by
  rw [List.filter_flatMap, List.filter_flatMap]
  refine flatMap_eq_of_perm hperm (h.imp_of_mem fun {a b} ha hb hnot => ?_)
  have hdeclares : ∀ document ∈ documents,
      ¬ (document.optionsAt statements path).filter (fun option => p option.1) = [] →
      ∃ key, p key = true ∧ document.DeclaresOption path key := by
    intro document hdocument hne
    obtain ⟨option, hoption⟩ := List.exists_mem_of_ne_nil _ hne
    obtain ⟨hmem, hp⟩ := List.mem_filter.1 hoption
    refine ⟨option.1, hp, declaresOption_of_mem (fun entry hentry => ?_) hmem⟩
    exact hstates entry (List.mem_flatMap.2 ⟨document, hdocument, hentry⟩)
  by_contra hsome
  rw [not_or] at hsome
  exact hnot ⟨hdeclares a ha hsome.1, hdeclares b hb hsome.2⟩

/-! ## Documents in another order -/

/-- Two schemas have the same namespaces and types at the same paths, and the same options as far as no two
of the documents declare them. -/
structure SameUpToOrder (documents : List SchemaDocument) (S T : Schema) : Prop where
  spaces : ∀ path fullName, (∃ ns, S.At path ns ∧ ns.fullName = fullName) ↔
    ∃ ns, T.At path ns ∧ ns.fullName = fullName
  types : ∀ path t, (∃ ns, S.At path ns ∧ t ∈ ns.types) ↔ ∃ ns, T.At path ns ∧ t ∈ ns.types
  /-- An option has the same value when no two documents declare it. -/
  option : ∀ path a b key, S.At path a → T.At path b →
    (documents.Pairwise fun first second => ¬ ((∃ k, k.same key = true ∧ first.DeclaresOption path k) ∧
      ∃ k, k.same key = true ∧ second.DeclaresOption path k)) →
    Mapping.get? key a.options = Mapping.get? key b.options
  /-- All options are the same when no two documents declare any. -/
  options : ∀ path a b, S.At path a → T.At path b →
    (documents.Pairwise fun first second => ¬ ((∃ k, first.DeclaresOption path k) ∧
      ∃ k, second.DeclaresOption path k)) →
    a.options = b.options

/-- The options of a namespace are those that documents declare for it. -/
theorem At.options_eq_ofEntries (hcons : S.resolveAll.Consistent) {path : List String} {ns : Namespace}
    (hat : S.resolveAll.At path ns)
    (h : Entity.settle none (documents.flatMap (SchemaDocument.saying statements path)) =
      some (S.look? path)) :
    ns.options = Mapping.ofEntries (documents.flatMap (SchemaDocument.optionsAt statements path)) := by
  rw [look?_resolveAll_eq_space_iff.1 ((look?_eq_space_iff hcons).2 ⟨ns, hat, rfl⟩)] at h
  rw [Entity.options_of_settle h, flatten_options_flatMap]

/-- Schemas where the same is settled from documents in two orders. -/
theorem sameUpToOrder_of_settled (hperm : documents.Perm others) (hsame : S.SameTypes T)
    (hS : S.resolveAll.Consistent) (hT : T.resolveAll.Consistent)
    (hstates : ∀ entry ∈ allEntries documents, entry.States (statements entry))
    (hsettled : ∀ path,
      Entity.settle none (documents.flatMap (SchemaDocument.saying statements path)) = some (S.look? path) ∧
        Entity.settle none (others.flatMap (SchemaDocument.saying statements path)) = some (T.look? path)) :
    SameUpToOrder documents S.resolveAll T.resolveAll := by
  refine ⟨?_, ?_, ?_, ?_⟩
  · intro path fullName
    have hspace : (∃ ns, S.resolveAll.At path ns) ↔ ∃ ns, T.resolveAll.At path ns := by
      simp only [exists_at_iff_look? hS, exists_at_iff_look? hT, look?_resolveAll_eq_space_iff,
        ← Entity.space_mem_iff_of_settle (hsettled path).1,
        ← Entity.space_mem_iff_of_settle (hsettled path).2, (hperm.flatMap_right _).mem_iff]
    constructor
    · rintro ⟨ns, hat, rfl⟩
      obtain ⟨other, hother⟩ := hspace.1 ⟨ns, hat⟩
      exact ⟨other, hother, by rw [hother.fullName_eq hT, hat.fullName_eq hS]⟩
    · rintro ⟨ns, hat, rfl⟩
      obtain ⟨other, hother⟩ := hspace.2 ⟨ns, hat⟩
      exact ⟨other, hother, by rw [hother.fullName_eq hS, hat.fullName_eq hT]⟩
  · intro path t
    have htype : ∀ {R : Schema}, R.Consistent → ((∃ ns, R.At path ns ∧ t ∈ ns.types) ↔
        (R.look? (path ++ [t.name])).bind Entity.type? = some t) := by
      intro R hR
      rw [← look?_eq_type_iff, look?_concat_eq_type_iff hR]
      simp only [and_true]
    rw [htype hS, htype hT, hsame.resolveAll]
  · intro path a b key ha hb hone
    rw [ha.options_eq_ofEntries hS (hsettled path).1, hb.options_eq_ofEntries hT (hsettled path).2,
      Mapping.get?_ofEntries, Mapping.get?_ofEntries, filter_options_eq hperm hstates (·.same key) hone]
  · intro path a b ha hb hone
    have hall : (documents.flatMap (SchemaDocument.optionsAt statements path)).filter (fun _ => true) =
        (others.flatMap (SchemaDocument.optionsAt statements path)).filter fun _ => true :=
      filter_options_eq hperm hstates (fun _ => true) (by simpa using hone)
    rw [ha.options_eq_ofEntries hS (hsettled path).1, hb.options_eq_ofEntries hT (hsettled path).2]
    simpa using congrArg Mapping.ofEntries hall

/-- Documents that load in one order load in any other, with the same types and namespaces. -/
theorem exists_ofDocuments_perm (hperm : documents.Perm others)
    (htext : ∀ entry ∈ allEntries documents, entry.key.isText = true) (h : ofDocuments documents = .ok S) :
    ∃ T, ofDocuments others = .ok T ∧ SameUpToOrder documents S T := by
  obtain ⟨merged, hmerge, rfl, hresolvable⟩ := ofDocuments_eq_ok_iff.1 h
  obtain ⟨merged', statements, hmerge', hstates, hsettled⟩ := mergeAll_perm hperm htext hmerge
  have hsame : merged.SameTypes merged' := by
    intro path
    obtain ⟨other, hother, hsame⟩ := Entity.settle_perm (hperm.flatMap_right _) (hsettled path).1
    cases (hsettled path).2.symm.trans hother
    exact hsame.symm
  have hresolvable' : ∀ t ∈ merged'.types, ∀ f ∈ t.fields, merged'.isUnresolvable t.owner f = false := by
    intro t ht f hf
    have ht' : t ∈ merged.types := (hsame.mem_types_iff (merged_empty.mergeAll hmerge).toConsistent
      (merged_empty.mergeAll hmerge').toConsistent).2 ht
    rw [← isUnresolvable_congr hsame.isSome_type? t.owner rfl]
    exact hresolvable t ht' f hf
  have h' : ofDocuments others = .ok merged'.resolveAll :=
    ofDocuments_eq_ok_iff.2 ⟨merged', hmerge', rfl, hresolvable'⟩
  exact ⟨merged'.resolveAll, h', sameUpToOrder_of_settled hperm hsame
    (loaded_of_ofDocuments h).toMerged.toConsistent (loaded_of_ofDocuments h').toMerged.toConsistent hstates
    hsettled⟩

/-- **The order of documents**: documents whose top-level keys are texts load in one order iff they load in
any other, and then with the same types, references and namespaces. -/
theorem ofDocuments_perm (hperm : documents.Perm others)
    (htext : ∀ entry ∈ allEntries documents, entry.key.isText = true) :
    ((∃ S, ofDocuments documents = .ok S) ↔ ∃ T, ofDocuments others = .ok T) ∧
    ∀ S T, ofDocuments documents = .ok S → ofDocuments others = .ok T → SameUpToOrder documents S T := by
  have htext' : ∀ entry ∈ allEntries others, entry.key.isText = true := by
    intro entry hentry
    exact htext entry ((hperm.flatMap_right SchemaDocument.entries).mem_iff.2 hentry)
  refine ⟨⟨?_, ?_⟩, ?_⟩
  · rintro ⟨S, hS⟩
    obtain ⟨T, hT, -⟩ := exists_ofDocuments_perm hperm htext hS
    exact ⟨T, hT⟩
  · rintro ⟨T, hT⟩
    obtain ⟨S, hS, -⟩ := exists_ofDocuments_perm hperm.symm htext' hT
    exact ⟨S, hS⟩
  · intro S T hS hT
    obtain ⟨other, hother, hsame⟩ := exists_ofDocuments_perm hperm htext hS
    cases hT.symm.trans hother
    exact hsame

/-! ### One namespace in two documents -/

/-- A message that refers to types of the other document. -/
def ordersDocument : SchemaDocument where
  source := "orders"
  content := [(.text "namespaces", .record [("shop", .record [
    ("options", .record [("owner", .text "sales")]),
    ("types", .record [("Order", .record [("fields", .list none [
      .record [("name", .text "status"), ("type", .text "Status")],
      .record [("name", .text "to"), ("type", .text "geo.Address")]])])])])])]

/-- More types of the same namespace, and another namespace. -/
def statusDocument : SchemaDocument where
  source := "status"
  content := [(.text "namespaces", .record [
    ("shop", .record [
      ("options", .record [("tier", .int 1)]),
      ("types", .record [("Status", .record [("values", .record [("OPEN", .int 0)])])])]),
    ("geo", .record [("types", .record [("Address", .null)])])])]

/-- The message, with its references. -/
def orderType : TypeDecl :=
  ⟨"Order", "shop", .message,
    [⟨"status", "Status", none, none, some ⟨"shop", "Status"⟩, []⟩,
      ⟨"to", "geo.Address", none, none, some ⟨"geo", "Address"⟩, []⟩], [], []⟩

/-- The enum. -/
def statusType : TypeDecl := ⟨"Status", "shop", .enum, [], [("OPEN", 0)], []⟩

/-- The schema with a namespace of these options and types, and the other namespace. -/
def shopSchema (options : Mapping) (types : List TypeDecl) : Schema :=
  ⟨[⟨"shop", "shop", options, types.map .type⟩,
    ⟨"geo", "geo", [], [.type ⟨"Address", "geo", .message, [], [], []⟩]⟩]⟩

theorem ofDocuments_ordersFirst : ofDocuments [ordersDocument, statusDocument] =
    .ok (shopSchema [(.text "owner", .text "sales"), (.text "tier", .int 1)] [orderType, statusType]) := by
  refine ofDocuments_eq_ok_iff.2 ⟨_, rfl, rfl, ?_⟩
  rw [types_eq_allTypesWithin]
  decide

theorem ofDocuments_statusFirst : ofDocuments [statusDocument, ordersDocument] =
    .ok (shopSchema [(.text "tier", .int 1), (.text "owner", .text "sales")] [statusType, orderType]) := by
  refine ofDocuments_eq_ok_iff.2 ⟨_, rfl, rfl, ?_⟩
  rw [types_eq_allTypesWithin]
  decide

theorem ofDocuments_perm_shop :
    [ordersDocument, statusDocument].Perm [statusDocument, ordersDocument] ∧
    (∀ entry ∈ allEntries [ordersDocument, statusDocument], entry.key.isText = true) ∧
    SameUpToOrder [ordersDocument, statusDocument]
      (shopSchema [(.text "owner", .text "sales"), (.text "tier", .int 1)] [orderType, statusType])
      (shopSchema [(.text "tier", .int 1), (.text "owner", .text "sales")] [statusType, orderType]) :=
  ⟨.swap _ _ _, by decide,
    (ofDocuments_perm (.swap _ _ _) (by decide)).2 _ _ ofDocuments_ordersFirst ofDocuments_statusFirst⟩

end Schema

end SchemaClosure
