import Mathlib.Data.List.Induction
import SchemaClosure.Proofs.Schema.Statements

/-!
# Documents entry by entry

Documents are merged one top-level entry after the other (`mergeAll_eq_ok_iff`). An entry adds the statements
that record it, wherever it is merged (`mergeEntry_uniform`). Where they are added depends on its key: a text
continues what earlier entries declare under that name, and any other key takes the place of it
(`TopEntry.Replaces`).

Main theorems `mergeEntries_settled`: what is merged is what the entries declare that no later one replaces,
and `mergeEntries_adds`: entries under texts add up.
-/

namespace SchemaClosure

/-- Whether the scalar is a text. -/
def Scalar.isText : Scalar → Bool
  | .text _ => true
  | _ => false

/-- A top-level entry of a document: where it comes from, its key, and what is declared under it. -/
structure TopEntry where
  source : String
  key : Scalar
  value : Value

namespace SchemaDocument

/-- The top-level entries of a document. -/
def entries (document : SchemaDocument) : List TopEntry :=
  (document.content.part "namespaces").map fun (key, v) => ⟨document.source, key, v⟩

/-- The top-level entries of documents, in the order in which they are merged. -/
def allEntries (documents : List SchemaDocument) : List TopEntry := documents.flatMap entries

/-- What stands for the namespaces of the document is a mapping or nothing. -/
def Readable (document : SchemaDocument) : Prop :=
  (document.content.field "namespaces").isVoid = true ∨
    ∃ mark content, (document.content.field "namespaces").unrolled = .mapping mark content

end SchemaDocument

namespace Schema

/-! ## Merging entries -/

/-- The schema with an entry merged in. -/
def mergeEntry (schema : Schema) (entry : TopEntry) : Except LoadError Schema :=
  schema.mergeNamespaces entry.source [(entry.key, entry.value)]

theorem mergeEntry_eq (schema : Schema) (entry : TopEntry) : schema.mergeEntry entry =
    entry.key.label entry.source >>= fun name =>
      Namespace.merge entry.source name ((schema.continued? entry.key).getD (Namespace.empty name name))
        entry.value >>= fun ns => .ok ⟨Namespace.put ns schema.namespaces⟩ := rfl

theorem mergeNamespaces_eq_foldlM (source : String) (content : Mapping) : ∀ schema : Schema,
    schema.mergeNamespaces source content =
      (content.map fun (key, v) => (⟨source, key, v⟩ : TopEntry)).foldlM mergeEntry schema := by
  induction content with
  | nil =>
    intro schema
    rfl
  | cons entry rest ih =>
    intro schema
    rw [List.map_cons, List.foldlM_cons, mergeEntry_eq, mergeNamespaces]
    simp only [bind_assoc]
    exact bind_congr fun name => bind_congr fun ns => ih _

theorem mergeDocument_eq_ok_iff {schema merged : Schema} {document : SchemaDocument} :
    schema.mergeDocument document = .ok merged ↔
      document.Readable ∧ document.entries.foldlM mergeEntry schema = .ok merged := by
  simp only [mergeDocument, SchemaDocument.Readable, SchemaDocument.entries, Mapping.part]
  by_cases hvoid : (document.content.field "namespaces").isVoid = true
  · rw [if_pos hvoid, Value.content_of_isVoid hvoid]
    simp only [hvoid, true_or, true_and]
    rfl
  · rw [if_neg hvoid]
    simp only [hvoid, Bool.false_eq_true, false_or]
    split
    · rename_i hunrolled
      rw [Value.content_of_unrolled hunrolled, ← mergeNamespaces_eq_foldlM]
      exact ⟨fun h => ⟨⟨_, _, hunrolled⟩, h⟩, fun h => h.2⟩
    · rename_i hmapping
      constructor
      · intro h
        cases h
      · rintro ⟨⟨mark, content, hunrolled⟩, -⟩
        exact absurd hunrolled (hmapping _ _)

/-- Documents merge when all are readable and their entries merge one after the other. -/
theorem mergeAll_eq_ok_iff {documents : List SchemaDocument} : ∀ {schema merged : Schema},
    schema.mergeAll documents = .ok merged ↔ (∀ document ∈ documents, document.Readable) ∧
      (SchemaDocument.allEntries documents).foldlM mergeEntry schema = .ok merged := by
  unfold SchemaDocument.allEntries
  induction documents with
  | nil => simp [mergeAll, pure, Except.pure]
  | cons document rest ih =>
    intro schema merged
    simp only [mergeAll, bind_eq_ok_iff, mergeDocument_eq_ok_iff, ih, List.forall_mem_cons,
      List.flatMap_cons, List.foldlM_append]
    constructor
    · rintro ⟨inner, ⟨hreadable, hinner⟩, hrest, h⟩
      exact ⟨⟨hreadable, hrest⟩, inner, hinner, h⟩
    · rintro ⟨⟨hreadable, hrest⟩, inner, hinner, h⟩
      exact ⟨inner, ⟨hreadable, hinner⟩, hrest, h⟩

theorem merged_empty : (Schema.mk []).Merged :=
  ⟨List.nodup_nil, by simp, by simp [spaces, Node.allSpaces]⟩

theorem Merged.mergeEntry {schema merged : Schema} (h : schema.Merged) {entry : TopEntry}
    (hmerged : schema.mergeEntry entry = .ok merged) : merged.Merged :=
  h.mergeNamespaces hmerged

theorem Merged.mergeEntries {entries : List TopEntry} : ∀ {schema merged : Schema}, schema.Merged →
    entries.foldlM Schema.mergeEntry schema = .ok merged → merged.Merged := by
  induction entries with
  | nil =>
    intro schema merged h hmerged
    cases hmerged
    exact h
  | cons entry rest ih =>
    intro schema merged h hmerged
    simp only [List.foldlM_cons, bind_eq_ok_iff] at hmerged
    obtain ⟨inner, hinner, hmerged⟩ := hmerged
    exact ih (h.mergeEntry hinner) hmerged

end Schema

/-! ## What an entry replaces -/

/-- Whether an entry takes the place of what stands at a path: its key gives the name that the path starts
with, and is no text. -/
def TopEntry.Replaces (entry : TopEntry) (path : List String) : Prop :=
  entry.key.isText = false ∧ path.head? = entry.key.label?

instance (entry : TopEntry) (path : List String) : Decidable (entry.Replaces path) := by
  unfold TopEntry.Replaces
  infer_instance

/-- The layout without what an entry replaces. -/
def Layout.without (layout : Layout) (entry : TopEntry) : Layout :=
  fun path => if entry.Replaces path then none else layout path

namespace Schema

/-- What an entry does not replace below its name is what it continues. -/
theorem without_cons_eq {entry : TopEntry} {name : String} (hname : entry.key.label? = some name)
    (schema : Schema) (path : List String) : schema.look?.without entry (name :: path) =
      (schema.continued? entry.key).bind fun ns => ns.look? path := by
  rw [Layout.without]
  cases hkey : entry.key with
  | text s =>
    rw [hkey] at hname
    obtain rfl : s = name := Option.some.inj hname
    rw [if_neg]
    · rfl
    · rintro ⟨htext, -⟩
      rw [hkey] at htext
      cases htext
  | _ =>
    rw [if_pos ⟨by rw [hkey]; rfl, hname.symm⟩]
    rfl

/-- What is put in under the name of an entry stands there, and the rest stays without what the entry
replaces. -/
theorem look?_put_without {entry : TopEntry} {new : Namespace} (hname : entry.key.label? = some new.name)
    (schema : Schema) :
    (∀ path, (Schema.mk (Namespace.put new schema.namespaces)).look? (new.name :: path) = new.look? path) ∧
    (Schema.mk (Namespace.put new schema.namespaces)).look? [] = schema.look?.without entry [] ∧
    ∀ other path, other ≠ new.name → (Schema.mk (Namespace.put new schema.namespaces)).look? (other :: path) =
      schema.look?.without entry (other :: path) := by
  obtain ⟨hat, hnil, hother⟩ := schema.look?_put new
  refine ⟨hat, ?_, fun other path hne => ?_⟩
  · rw [hnil, Layout.without]
    split <;> rfl
  · rw [hother other path hne, Layout.without, if_neg]
    rintro ⟨-, hhead⟩
    rw [hname] at hhead
    exact hne (Option.some.inj hhead)

theorem mergeEntry_of_label {entry : TopEntry} {name : String} (hname : entry.key.label? = some name)
    (schema : Schema) : schema.mergeEntry entry =
      Namespace.merge entry.source name ((schema.continued? entry.key).getD (Namespace.empty name name))
        entry.value >>= fun ns => .ok ⟨Namespace.put ns schema.namespaces⟩ := by
  rw [mergeEntry_eq, Scalar.label, hname]
  rfl

/-- What an entry declares is added below its name to what the entry does not replace. -/
theorem mergeEntry_adds {entry : TopEntry} {name : String} (hname : entry.key.label? = some name)
    {own : List Statement} (hown : entry.value.Records own)
    (hadds : ∀ start : Namespace, start.AllSound → start.fullName = name →
      Adds Namespace.look? start.look? own (Namespace.merge entry.source name start entry.value))
    {schema : Schema} (h : schema.Merged) (number : Nat) :
    Adds Schema.look? (schema.look?.without entry) (own.map (Statement.under number name))
      (schema.mergeEntry entry) := by
  have hlabel : entry.key.label entry.source = .ok name := Scalar.label_eq_ok_iff.2 hname
  obtain ⟨hsound, hstart, hfull⟩ := h.start_of_continued? hlabel
  have hbelow := hadds _ hsound hfull
  obtain ⟨options, rest, rfl⟩ := hown.first
  rw [mergeEntry_of_label hname]
  refine hbelow.graft_onto (without_cons_eq hname schema) (fun new hnew => ?_) number
  have hnewName : new.name = name := (Namespace.merge_grows hnew hfull).name.trans hstart
  subst hnewName
  exact ⟨_, rfl, look?_put_without hname schema⟩

/-- **An entry** fails on every merged schema, or adds the statements that record it to what it does not
replace. -/
theorem mergeEntry_uniform (entry : TopEntry) :
    (∀ schema : Schema, schema.Merged → ∃ e, schema.mergeEntry entry = .error e) ∨
    ∃ name own, entry.key.label? = some name ∧ entry.value.Records own ∧
      ∀ schema : Schema, schema.Merged → ∀ number, Adds Schema.look? (schema.look?.without entry)
        (own.map (Statement.under number name)) (schema.mergeEntry entry) := by
  cases hname : entry.key.label? with
  | none =>
    refine .inl fun schema _ => ⟨.labelTooLong entry.source, ?_⟩
    rw [mergeEntry_eq, Scalar.label, hname]
    rfl
  | some name =>
    have hlabel : entry.key.label entry.source = .ok name := Scalar.label_eq_ok_iff.2 hname
    rcases Namespace.merge_uniform entry.source name entry.value with hfail | ⟨own, hown, hadds⟩
    · refine .inl fun schema h => ?_
      obtain ⟨hsound, -, hfull⟩ := h.start_of_continued? hlabel
      obtain ⟨e, he⟩ := hfail _ hsound hfull
      exact ⟨e, (mergeEntry_of_label hname schema).trans (bind_eq_error_iff.2 (.inl he))⟩
    · exact .inr ⟨name, own, rfl, hown, fun schema h number => mergeEntry_adds hname hown hadds h number⟩

/-- Entries whose keys are texts add up: each adds its statements to those of the others. -/
theorem mergeEntries_adds {statements : TopEntry → List Statement} {entries : List TopEntry}
    (h : ∀ entry ∈ entries, ∀ schema : Schema, schema.Merged →
      Adds Schema.look? schema.look? (statements entry) (schema.mergeEntry entry)) :
    ∀ schema : Schema, schema.Merged →
      Adds Schema.look? schema.look? (entries.flatMap statements) (entries.foldlM mergeEntry schema) := by
  induction entries with
  | nil => exact fun schema _ => .of_ok fun _ => Entity.settle_nil _
  | cons entry rest ih =>
    intro schema hschema
    refine (h entry List.mem_cons_self schema hschema).bind fun inner hinner => ?_
    exact ih (fun other hother => h other (List.mem_cons_of_mem _ hother)) inner (hschema.mergeEntry hinner)

end Schema

/-! ## What entries declare -/

/-- What entries declare, at which place and below which chain of keys. The first number of a place is that of
the entry. -/
inductive DeclaredIn (entries : List TopEntry) : List Nat → List Scalar → Declaration → Prop
  | inside {number : Nat} {entry : TopEntry} {place : List Nat} {keys : List Scalar} {d : Declaration} :
    entries[number]? = some entry → entry.value.Declares place keys d →
    DeclaredIn entries (number :: place) (entry.key :: keys) d

/-- No later entry takes the place of what is declared at a place: none that gives the same name has a key
that is no text. -/
def Kept (entries : List TopEntry) (place : List Nat) : Prop :=
  ∀ number ∈ place.head?, ∀ entry ∈ entries[number]?, ∀ later ∈ entries.drop (number + 1),
    later.key.isText = false → later.key.label? ≠ entry.key.label?

/-- The statements are those of the declarations that are kept. -/
structure RecordsKept (entries : List TopEntry) (statements : List Statement) : Prop where
  declared : ∀ s ∈ statements, ∃ keys d, DeclaredIn entries s.place keys d ∧ Kept entries s.place ∧
    d.Gives keys s.path s.entity
  stated : ∀ place keys d, DeclaredIn entries place keys d → Kept entries place →
    ∃ s ∈ statements, s.place = place ∧ d.Gives keys s.path s.entity

/-- A path starts with the name that the first key gives. -/
theorem Declaration.Gives.head? {key : Scalar} {keys : List Scalar} {d : Declaration} {path : List String}
    {e : Entity} (h : d.Gives (key :: keys) path e) : path.head? = key.label? := by
  cases h with
  | space hkeys =>
    cases hkeys with
    | cons hkey _ => exact hkey.symm
  | type hkeys _ _ =>
    cases hkeys with
    | cons hkey _ => exact hkey.symm

theorem declaredIn_append_iff {entries more : List TopEntry} {number : Nat} {place : List Nat}
    {keys : List Scalar} {d : Declaration} (hnumber : number < entries.length) :
    DeclaredIn (entries ++ more) (number :: place) keys d ↔ DeclaredIn entries (number :: place) keys d := by
  constructor
  · rintro ⟨hentry, hdeclares⟩
    rw [List.getElem?_append_left hnumber] at hentry
    exact .inside hentry hdeclares
  · rintro ⟨hentry, hdeclares⟩
    rw [← List.getElem?_append_left hnumber] at hentry
    exact .inside hentry hdeclares

theorem kept_concat_iff {entries : List TopEntry} {last entry : TopEntry} {number : Nat} {place : List Nat}
    (hentry : entries[number]? = some entry) :
    Kept (entries ++ [last]) (number :: place) ↔ Kept entries (number :: place) ∧
      (last.key.isText = false → last.key.label? ≠ entry.key.label?) := by
  have hnumber : number < entries.length := (List.getElem?_eq_some_iff.1 hentry).1
  simp only [Kept, List.head?_cons, Option.mem_some_iff, forall_eq', List.getElem?_append_left hnumber,
    hentry, List.drop_append_of_le_length hnumber, List.mem_append, List.mem_singleton]
  constructor
  · exact fun h => ⟨fun later hlater => h later (.inl hlater), h last (.inr rfl)⟩
  · rintro ⟨h, hlast⟩ later (hlater | rfl)
    · exact h later hlater
    · exact hlast

theorem kept_last {entries : List TopEntry} {last : TopEntry} {place : List Nat} :
    Kept (entries ++ [last]) (entries.length :: place) := by
  simp [Kept]

/-- One more entry takes away the statements that it replaces and adds its own. -/
theorem RecordsKept.concat {entries : List TopEntry} {statements own : List Statement}
    (h : RecordsKept entries statements) {last : TopEntry} {name : String}
    (hname : last.key.label? = some name) (hown : last.value.Records own) :
    RecordsKept (entries ++ [last]) (statements.filter (fun s => ¬ last.Replaces s.path) ++
      own.map (Statement.under entries.length name)) := by
  have hlast : (entries ++ [last])[entries.length]? = some last := List.getElem?_concat_length
  constructor
  · intro s hs
    rcases List.mem_append.1 hs with hs | hs
    · obtain ⟨hs, hreplaces⟩ := List.mem_filter.1 hs
      obtain ⟨keys, d, hdeclared, hkept, hgives⟩ := h.declared s hs
      have hreplaces : ¬ last.Replaces s.path := by simpa using hreplaces
      generalize hplace : s.place = place at hdeclared hkept
      obtain ⟨hentry, hdeclares⟩ := hdeclared
      have hnumber := (List.getElem?_eq_some_iff.1 hentry).1
      refine ⟨_, d, (declaredIn_append_iff hnumber).2 (.inside hentry hdeclares), ?_, hgives⟩
      exact (kept_concat_iff hentry).2 ⟨hkept, fun htext hlabel =>
        hreplaces ⟨htext, hgives.head?.trans hlabel.symm⟩⟩
    · obtain ⟨inner, hinner, rfl⟩ := List.mem_map.1 hs
      obtain ⟨keys, d, hdeclares, hgives⟩ := hown.declared inner hinner
      exact ⟨_, d, .inside hlast hdeclares, kept_last, hgives.under hname⟩
  · rintro _ _ d ⟨hentry, hdeclares⟩ hkept
    rename_i number entry place keys
    -- what is declared is declared in an earlier entry or in the last one
    by_cases hnumber : number < entries.length
    · rw [List.getElem?_append_left hnumber] at hentry
      obtain ⟨hkept, hlater⟩ := (kept_concat_iff hentry).1 hkept
      obtain ⟨s, hs, hplace, hgives⟩ := h.stated _ _ d (.inside hentry hdeclares) hkept
      refine ⟨s, List.mem_append_left _ (List.mem_filter.2 ⟨hs, ?_⟩), hplace, hgives⟩
      have hreplaces : ¬ last.Replaces s.path := fun ⟨htext, hhead⟩ =>
        hlater htext (hhead.symm.trans hgives.head?)
      simpa using hreplaces
    · have hbound := (List.getElem?_eq_some_iff.1 hentry).1
      rw [List.length_append, List.length_singleton] at hbound
      obtain rfl : number = entries.length := by omega
      obtain rfl : last = entry := Option.some.inj (hlast.symm.trans hentry)
      obtain ⟨s, hs, rfl, hgives⟩ := hown.stated _ _ _ hdeclares
      exact ⟨_, List.mem_append_right _ (List.mem_map_of_mem hs), rfl, hgives.under hname⟩

namespace Schema

theorem about_not_replaced (entry : TopEntry) (statements : List Statement) (path : List String) :
    Statement.about (statements.filter fun s => ¬ entry.Replaces s.path) path =
      if entry.Replaces path then [] else Statement.about statements path := by
  unfold Statement.about
  rw [List.filter_filter]
  split
  · rename_i h
    rw [List.map_eq_nil_iff, List.filter_eq_nil_iff]
    rintro s - hs
    simp only [Bool.and_eq_true, decide_eq_true_eq] at hs
    exact hs.2 (hs.1 ▸ h)
  · rename_i h
    congr 1
    refine List.filter_congr fun s _ => ?_
    by_cases hs : s.path = path
    · simp [hs, h]
    · simp [hs]

/-- **What is merged** is what the entries declare that no later one replaces. -/
theorem mergeEntries_settled {entries : List TopEntry} : ∀ {merged : Schema},
    entries.foldlM mergeEntry ⟨[]⟩ = .ok merged → ∃ statements, RecordsKept entries statements ∧
      ∀ path, Entity.settle none (Statement.about statements path) = some (merged.look? path) := by
  -- by the last entry: it replaces what those before it declare, never what comes after
  induction entries using List.reverseRecOn with
  | nil =>
    intro merged h
    cases h
    refine ⟨[], ⟨(fun _ h => nomatch h), ?_⟩, fun path => by cases path <;> rfl⟩
    rintro _ _ _ ⟨hentry, -⟩
    cases hentry
  | append_singleton entries last ih =>
    intro merged h
    simp only [List.foldlM_append, List.foldlM_cons, List.foldlM_nil, bind_eq_ok_iff] at h
    obtain ⟨inner, hinner, _, hmerged, h⟩ := h
    cases h
    obtain ⟨statements, hrecords, hsettled⟩ := ih hinner
    have hmergedInner := merged_empty.mergeEntries hinner
    rcases mergeEntry_uniform last with hfail | ⟨name, own, hname, hown, hadds⟩
    · obtain ⟨e, he⟩ := hfail inner hmergedInner
      cases hmerged.symm.trans he
    · refine ⟨_, hrecords.concat hname hown, fun path => ?_⟩
      have hkept : Entity.settle none
          (if last.Replaces path then [] else Statement.about statements path) =
            some (inner.look?.without last path) := by
        rw [Layout.without]
        split
        · rfl
        · exact hsettled path
      rw [Statement.about_append, Entity.settle_append, about_not_replaced, hkept, Option.bind_some]
      exact (hadds inner hmergedInner entries.length).settled merged hmerged path

end Schema

end SchemaClosure
