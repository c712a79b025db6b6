import SchemaClosure.Proofs.Schema.DeclaredTypes
import SchemaClosure.Proofs.Schema.Entries

/-!
# Whether anything declared is lost

A schema is faithful to documents when each type and each namespace that they declare stands in it as it is
declared, and each type in it is declared at one place (`Schema.Faithful`). Two things lose a declaration
without an error: a top-level key that is no text takes the place of all that earlier entries declare under
the same name, and of two values of an enum with the same name the later one takes the place of the earlier.

Main theorem `faithful_iff_intact`: nothing else does. `not_faithful_numbered` is a schema that lost a type.
-/

namespace SchemaClosure

open SchemaDocument (allEntries)

/-- The schema holds each type and namespace that documents declare, and each of its types is declared at one
place. -/
structure Schema.Faithful (schema : Schema) (documents : List SchemaDocument) : Prop where
  type : ∀ place keys key definition, DeclaredIn (allEntries documents) place keys (.type key definition) →
    ∃ path name ns t, Scalar.Label keys path ∧ key.label? = some name ∧ schema.At path ns ∧ t ∈ ns.types ∧
      t.name = name ∧ t.DeclaredBy definition
  once : ∀ path ns t, schema.At path ns → t ∈ ns.types → ∃! place, ∃ keys key definition,
    DeclaredIn (allEntries documents) place keys (.type key definition) ∧ Scalar.Label keys path ∧
      key.label? = some t.name
  space : ∀ place keys content, DeclaredIn (allEntries documents) place keys (.space content) →
    ∃ path ns, Scalar.Label keys path ∧ schema.At path ns

/-- Nothing that documents declare is replaced: no type, no namespace that is not declared elsewhere too, and
no value of an enum. -/
structure SchemaDocument.Intact (documents : List SchemaDocument) : Prop where
  type : ∀ place keys key definition, DeclaredIn (allEntries documents) place keys (.type key definition) →
    Kept (allEntries documents) place
  space : ∀ place keys content, DeclaredIn (allEntries documents) place keys (.space content) →
    ∃ path other otherKeys otherContent, Scalar.Label keys path ∧ Scalar.Label otherKeys path ∧
      DeclaredIn (allEntries documents) other otherKeys (.space otherContent) ∧
      Kept (allEntries documents) other
  value : ∀ place keys key definition, DeclaredIn (allEntries documents) place keys (.type key definition) →
    definition.valueNames.Nodup

/-! ## What stands where -/

/-- Keys give one path. -/
theorem Scalar.Label.unique {keys : List Scalar} {a b : List String} (ha : Scalar.Label keys a)
    (hb : Scalar.Label keys b) : a = b := by
  induction ha generalizing b with
  | nil => cases hb; rfl
  | cons hfirst _ ih =>
    cases hb with
    | cons hother hrest => rw [Option.some.inj (hfirst.symm.trans hother), ih hrest]

namespace RecordsKept

variable {entries : List TopEntry} {statements : List Statement} {merged : Schema}
  {path : List String} {name : String}

/-- A type that is kept stands where it is declared. -/
theorem look?_eq_type (h : RecordsKept entries statements)
    (hsettled : ∀ path, Entity.settle none (Statement.about statements path) = some (merged.look? path))
    {place : List Nat} {keys : List Scalar} {key : Scalar} {definition : Value}
    (hdeclared : DeclaredIn entries place keys (.type key definition)) (hkept : Kept entries place) :
    ∃ path name owner source t, Scalar.Label keys path ∧ key.label? = some name ∧
      TypeDecl.parse name owner source definition = .ok t ∧
      merged.look? (path ++ [name]) = some (.type t) := by
  obtain ⟨s, hs, rfl, hgives⟩ := h.stated place keys _ hdeclared hkept
  obtain ⟨path, name, owner, source, t, hkeys, hname, hparse, hpath, hentity⟩ :=
    Declaration.gives_type_iff.1 hgives
  have hmem : .type t ∈ Statement.about statements (path ++ [name]) :=
    Statement.mem_about.2 ⟨s, hs, hpath, hentity⟩
  exact ⟨path, name, owner, source, t, hkeys, hname, hparse,
    ((Entity.type_mem_iff_of_settle (hsettled _)).1 hmem).2⟩

/-- A type that stands somewhere is kept at one of the places that declare it, and only there. -/
theorem existsUnique_of_look?_eq_type (h : RecordsKept entries statements)
    (hsettled : ∀ path, Entity.settle none (Statement.about statements path) = some (merged.look? path))
    {t : TypeDecl} (hstands : merged.look? (path ++ [name]) = some (.type t)) :
    ∃! place, Kept entries place ∧ ∃ keys key definition,
      DeclaredIn entries place keys (.type key definition) ∧ Scalar.Label keys path ∧
        key.label? = some name := by
  -- a type settles only where nothing else is stated
  have habout : Statement.about statements (path ++ [name]) = [.type t] := by
    rcases Entity.settle_none_eq_some_iff.1 ((hsettled _).trans (congrArg some hstands)) with
      ⟨-, hnone⟩ | ⟨u, hu, hsame⟩ | ⟨all, -, -, hsame⟩
    · cases hnone
    · cases hsame
      exact hu
    · cases hsame
  obtain ⟨s, hs, hpath, hentity⟩ := Statement.mem_about.1 (habout ▸ List.mem_singleton.2 rfl :
    Entity.type t ∈ Statement.about statements (path ++ [name]))
  refine ⟨s.place, ?_, ?_⟩
  · obtain ⟨keys, d, hdeclared, hkept, hgives⟩ := h.declared s hs
    obtain ⟨key, definition, rfl⟩ := (hentity ▸ hgives).eq_type
    obtain ⟨otherPath, otherName, -, -, -, hkeys, hname, -, hwhole, -⟩ :=
      Declaration.gives_type_iff.1 hgives
    obtain ⟨rfl, hsame⟩ := List.append_inj' (hwhole.symm.trans hpath) rfl
    cases hsame
    exact ⟨hkept, keys, key, definition, hdeclared, hkeys, hname⟩
  · rintro place ⟨hkept, keys, key, definition, hdeclared, hkeys, hname⟩
    obtain ⟨other, hother, rfl, hgives⟩ := h.stated place keys _ hdeclared hkept
    obtain ⟨otherPath, otherName, -, -, -, hotherKeys, hotherName, -, hwhole, -⟩ :=
      Declaration.gives_type_iff.1 hgives
    have hsame : other.path = path ++ [name] := by
      rw [hwhole, hotherKeys.unique hkeys, Option.some.inj (hotherName.symm.trans hname)]
    rw [Statement.eq_of_about_singleton habout hother hs hsame hpath]

/-- A namespace stands where one is declared and kept. -/
theorem look?_eq_space_iff (h : RecordsKept entries statements)
    (hsettled : ∀ path, Entity.settle none (Statement.about statements path) = some (merged.look? path)) :
    (∃ options, merged.look? path = some (.space options)) ↔ ∃ place keys content,
      DeclaredIn entries place keys (.space content) ∧ Kept entries place ∧ Scalar.Label keys path := by
  rw [← Entity.space_mem_iff_of_settle (hsettled path)]
  constructor
  · rintro ⟨options, hmem⟩
    obtain ⟨s, hs, rfl, hentity⟩ := Statement.mem_about.1 hmem
    obtain ⟨keys, d, hdeclared, hkept, hgives⟩ := h.declared s hs
    obtain ⟨content, rfl⟩ := (hentity ▸ hgives).eq_space
    exact ⟨_, _, _, hdeclared, hkept, (Declaration.gives_space_iff.1 hgives).1⟩
  · rintro ⟨place, keys, content, hdeclared, hkept, hkeys⟩
    obtain ⟨s, hs, rfl, hgives⟩ := h.stated place keys _ hdeclared hkept
    obtain ⟨hotherKeys, hentity⟩ := Declaration.gives_space_iff.1 hgives
    exact ⟨_, Statement.mem_about.2 ⟨s, hs, hotherKeys.unique hkeys, hentity⟩⟩

end RecordsKept

/-- Everything is kept when no entry has a key that is no text and gives the name of an earlier one. -/
theorem kept_of_pairwise {entries : List TopEntry}
    (h : entries.Pairwise fun entry later => later.key.isText = false → later.key.label? ≠ entry.key.label?)
    (place : List Nat) : Kept entries place := by
  intro number _ entry hentry
  obtain ⟨hnumber, rfl⟩ := List.getElem?_eq_some_iff.1 hentry
  have hdrop := h.drop (i := number)
  rw [List.drop_eq_getElem_cons hnumber, List.pairwise_cons] at hdrop
  exact hdrop.1

namespace Schema

variable {documents : List SchemaDocument} {schema : Schema}

theorem declaredBy_resolveType_iff (merged : Schema) {t : TypeDecl} {v : Value} :
    (merged.resolveType t).DeclaredBy v ↔ t.DeclaredBy v := by
  refine TypeDecl.declaredBy_mapFields_iff fun f => ?_
  unfold resolveField
  split <;> rfl

/-- A loaded schema is what the entries of the documents declare and keep, with references. -/
theorem exists_merged (h : ofDocuments documents = .ok schema) :
    ∃ (merged : Schema) (statements : List Statement), merged.resolveAll = schema ∧
      RecordsKept (allEntries documents) statements ∧
      ∀ path, Entity.settle none (Statement.about statements path) = some (merged.look? path) := by
  obtain ⟨merged, hmerge, hresolve, -⟩ := ofDocuments_eq_ok_iff.1 h
  obtain ⟨statements, hrecords, hsettled⟩ := mergeEntries_settled (mergeAll_eq_ok_iff.1 hmerge).2
  exact ⟨merged, statements, hresolve, hrecords, hsettled⟩

/-- A type that is kept stands where it is declared, as it is declared unless names of its values repeat. -/
theorem exists_type_of_kept (h : ofDocuments documents = .ok schema) {place : List Nat} {keys : List Scalar}
    {key : Scalar} {definition : Value}
    (hdeclared : DeclaredIn (allEntries documents) place keys (.type key definition))
    (hkept : Kept (allEntries documents) place) :
    ∃ path name ns t, Scalar.Label keys path ∧ key.label? = some name ∧ schema.At path ns ∧ t ∈ ns.types ∧
      t.name = name ∧ (t.DeclaredBy definition ↔ definition.valueNames.Nodup) := by
  have hcons := (loaded_of_ofDocuments h).toMerged.toConsistent
  obtain ⟨merged, statements, rfl, hrecords, hsettled⟩ := exists_merged h
  obtain ⟨path, name, owner, source, t, hkeys, hname, hparse, hstands⟩ :=
    hrecords.look?_eq_type hsettled hdeclared hkept
  obtain ⟨ns, hat, ht, htname⟩ :=
    (look?_concat_eq_type_iff hcons).1 (look?_resolveAll_eq_type_iff.2 ⟨t, hstands, rfl⟩)
  exact ⟨path, name, ns, _, hkeys, hname, hat, ht, htname,
    (declaredBy_resolveType_iff merged).trans (TypeDecl.declaredBy_iff_of_parse hparse)⟩

/-- A type of the schema is kept at one place. -/
theorem existsUnique_kept (h : ofDocuments documents = .ok schema) {path : List String} {ns : Namespace}
    (hat : schema.At path ns) {t : TypeDecl} (ht : t ∈ ns.types) :
    ∃! place, Kept (allEntries documents) place ∧ ∃ keys key definition,
      DeclaredIn (allEntries documents) place keys (.type key definition) ∧ Scalar.Label keys path ∧
        key.label? = some t.name := by
  have hstands := (look?_concat_eq_type_iff (loaded_of_ofDocuments h).toMerged.toConsistent).2
    ⟨ns, hat, ht, rfl⟩
  obtain ⟨merged, statements, rfl, hrecords, hsettled⟩ := exists_merged h
  obtain ⟨bare, hbare, -⟩ := look?_resolveAll_eq_type_iff.1 hstands
  exact hrecords.existsUnique_of_look?_eq_type hsettled hbare

/-- The namespaces of the schema are those that are declared somewhere and kept. -/
theorem exists_at_iff_kept (h : ofDocuments documents = .ok schema) {path : List String} :
    (∃ ns, schema.At path ns) ↔ ∃ place keys content,
      DeclaredIn (allEntries documents) place keys (.space content) ∧ Kept (allEntries documents) place ∧
        Scalar.Label keys path := by
  rw [exists_at_iff_look? (loaded_of_ofDocuments h).toMerged.toConsistent]
  obtain ⟨merged, statements, rfl, hrecords, hsettled⟩ := exists_merged h
  simp only [look?_resolveAll_eq_space_iff]
  exact hrecords.look?_eq_space_iff hsettled

/-- **What is lost** in loading: a schema that documents declare is faithful to them iff none of their
declarations is replaced. -/
theorem faithful_iff_intact (h : ofDocuments documents = .ok schema) :
    schema.Faithful documents ↔ SchemaDocument.Intact documents := by
  constructor
  · intro hfaithful
    refine ⟨?_, ?_, ?_⟩
    · intro place keys key definition hdeclared
      obtain ⟨path, name, ns, t, hkeys, hname, hat, ht, rfl, -⟩ := hfaithful.type _ _ _ _ hdeclared
      -- the type in the schema is kept at a place, and by faithfulness that is the only place
      obtain ⟨kept, ⟨hkept, hother⟩, -⟩ := existsUnique_kept h hat ht
      obtain ⟨only, -, honly⟩ := hfaithful.once path ns t hat ht
      rw [honly place ⟨keys, key, definition, hdeclared, hkeys, hname⟩, ← honly kept hother]
      exact hkept
    · intro place keys content hdeclared
      obtain ⟨path, ns, hkeys, hat⟩ := hfaithful.space _ _ _ hdeclared
      obtain ⟨other, otherKeys, otherContent, hother, hkept, hotherKeys⟩ :=
        (exists_at_iff_kept h).1 ⟨ns, hat⟩
      exact ⟨path, other, otherKeys, otherContent, hkeys, hotherKeys, hother, hkept⟩
    · intro place keys key definition hdeclared
      obtain ⟨path, name, ns, t, -, -, hat, ht, -, hdeclaredBy⟩ := hfaithful.type _ _ _ _ hdeclared
      have hsound := (loaded_of_ofDocuments h).sound ns hat.mem_spaces
      exact hdeclaredBy.valueNames_nodup (hsound.canonical t ht)
  · intro hintact
    refine ⟨?_, ?_, ?_⟩
    · intro place keys key definition hdeclared
      obtain ⟨path, name, ns, t, hkeys, hname, hat, ht, htname, hdeclaredBy⟩ :=
        exists_type_of_kept h hdeclared (hintact.type _ _ _ _ hdeclared)
      exact ⟨path, name, ns, t, hkeys, hname, hat, ht, htname,
        hdeclaredBy.2 (hintact.value _ _ _ _ hdeclared)⟩
    · intro path ns t hat ht
      obtain ⟨place, ⟨-, hplace⟩, honly⟩ := existsUnique_kept h hat ht
      refine ⟨place, hplace, ?_⟩
      rintro other ⟨keys, key, definition, hdeclared, hkeys, hname⟩
      exact honly other ⟨hintact.type _ _ _ _ hdeclared, keys, key, definition, hdeclared, hkeys, hname⟩
    · intro place keys content hdeclared
      obtain ⟨path, other, otherKeys, otherContent, hkeys, hotherKeys, hother, hkept⟩ :=
        hintact.space _ _ _ hdeclared
      obtain ⟨ns, hat⟩ := (exists_at_iff_kept h).2 ⟨other, otherKeys, otherContent, hother, hkept, hotherKeys⟩
      exact ⟨path, ns, hkeys, hat⟩

/-- When no top-level entry is replaced, only values of enums can be lost. -/
theorem intact_iff_of_kept (h : ofDocuments documents = .ok schema)
    (hkept : ∀ place, Kept (allEntries documents) place) :
    SchemaDocument.Intact documents ↔ ∀ place keys key definition,
      DeclaredIn (allEntries documents) place keys (.type key definition) → definition.valueNames.Nodup := by
  refine ⟨SchemaDocument.Intact.value, fun hvalues => ⟨fun place _ _ _ _ => hkept place, ?_, hvalues⟩⟩
  intro place keys content hdeclared
  obtain ⟨-, statements, -, hrecords, -⟩ := exists_merged h
  obtain ⟨s, -, -, hgives⟩ := hrecords.stated _ _ _ hdeclared (hkept place)
  have hkeys := (Declaration.gives_space_iff.1 hgives).1
  exact ⟨_, place, keys, content, hkeys, hkeys, hdeclared, hkept place⟩

/-! ### A namespace under a number -/

/-- A document with one namespace, under a key, and the types in it. -/
def sectionDocument (key : Scalar) (types : List (String × Value)) : SchemaDocument where
  source := "section"
  content := [(.text "namespaces", .mapping none [(key, .record [("types", .record types)])])]

/-- A number first and the text of it after that: the second document continues the first. -/
def continued : List SchemaDocument :=
  [sectionDocument (.int 1) [("Code", .record [("values", .mapping none [(.int 10, .int 1), (.text "OK", .int 0)])])],
    sectionDocument (.text "1") [("Order", .null)]]

/-- The schema that they declare. -/
def continuedSchema : Schema :=
  ⟨[⟨"1", "1", [], [.type ⟨"Code", "1", .enum, [], [("10", 1), ("OK", 0)], []⟩,
    .type ⟨"Order", "1", .message, [], [], []⟩]⟩]⟩

theorem ofDocuments_continued : ofDocuments continued = .ok continuedSchema := by
  refine ofDocuments_eq_ok_iff.2 ⟨_, rfl, rfl, ?_⟩
  rw [types_eq_allTypesWithin]
  decide

/-- A number twice: the second document takes the place of the first. -/
def numbered : List SchemaDocument :=
  [sectionDocument (.int 1) [("A", .null)], sectionDocument (.int 1) [("B", .null)]]

/-- The schema that is left. -/
def numberedSchema : Schema := ⟨[⟨"1", "1", [], [.type ⟨"B", "1", .message, [], [], []⟩]⟩]⟩

theorem ofDocuments_numbered : ofDocuments numbered = .ok numberedSchema := by
  refine ofDocuments_eq_ok_iff.2 ⟨_, rfl, rfl, ?_⟩
  rw [types_eq_allTypesWithin]
  decide

theorem mem_types_of_declares {types : List (String × Value)} {place : List Nat} {keys : List Scalar}
    {key : Scalar} {definition : Value}
    (h : (Value.record [("types", .record types)]).Declares place keys (.type key definition)) :
    definition ∈ types.map Prod.snd := by
  generalize hv : Value.record [("types", .record types)] = v at h
  cases h with
  | type hentry =>
    cases hv
    obtain ⟨entry, hmem, hsame⟩ := List.mem_map.1 (List.mem_of_getElem? hentry)
    cases hsame
    exact List.mem_map_of_mem hmem
  | inside hentry _ =>
    cases hv
    cases hentry
  | knot _ => cases hv

theorem intact_continued : SchemaDocument.Intact continued := by
  refine (intact_iff_of_kept ofDocuments_continued (kept_of_pairwise (by decide))).2 ?_
  rintro _ _ key definition ⟨hentry, hdeclares⟩
  rcases List.mem_cons.1 (List.mem_of_getElem? hentry) with rfl | hrest
  · obtain rfl := List.mem_singleton.1 (mem_types_of_declares hdeclares)
    decide
  · obtain rfl := List.mem_singleton.1 hrest
    obtain rfl := List.mem_singleton.1 (mem_types_of_declares hdeclares)
    decide

theorem faithful_continued :
    ofDocuments continued = .ok continuedSchema ∧ continuedSchema.Faithful continued :=
  ⟨ofDocuments_continued, (faithful_iff_intact ofDocuments_continued).2 intact_continued⟩

/-- The type of the first document is lost without an error. -/
theorem not_faithful_numbered :
    ofDocuments numbered = .ok numberedSchema ∧ numberedSchema.type? ⟨"1", "A"⟩ = none ∧
    ¬ numberedSchema.Faithful numbered := by
  refine ⟨ofDocuments_numbered, by decide, fun hfaithful => ?_⟩
  have hentry : (allEntries numbered)[0]? =
      some ⟨"section", .int 1, .mapping none [(.text "types", .record [("A", .null)])]⟩ := rfl
  have hdeclared : DeclaredIn (allEntries numbered) [0, 0] [.int 1] (.type (.text "A") .null) :=
    .inside hentry (.type rfl)
  obtain ⟨path, name, ns, t, hkeys, hname, hat, ht, rfl, -⟩ := hfaithful.type _ _ _ _ hdeclared
  have hpath : path = ["1"] := hkeys.unique (.cons (by decide) .nil)
  have htname : t.name = "A" := (Option.some.inj hname).symm
  subst hpath
  have hstands := (look?_concat_eq_type_iff
    (loaded_of_ofDocuments ofDocuments_numbered).toMerged.toConsistent).2 ⟨ns, hat, ht, htname⟩
  cases hstands

end Schema

end SchemaClosure
