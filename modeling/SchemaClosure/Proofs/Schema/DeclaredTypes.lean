import SchemaClosure.Proofs.Schema.Declared

/-!
# Which types a value declares

What it is for a type to be the one that a value declares, said without reading the value
(`TypeDecl.DeclaredBy`): the fields in their order, or each value of an enum under the name that its key
gives, and the options.

Main theorem `TypeDecl.declaredBy_iff_of_parse`: a type that was read is the one that is declared iff no two
values of an enum have one name. When two have, the later number takes the place of the earlier one.
-/

namespace SchemaClosure

theorem Value.text_of_nonEmptyText {label source s : String} {v : Value}
    (h : v.nonEmptyText label source = .ok s) : ∃ written, v = .text written ∧ s = Text.strip written := by
  unfold nonEmptyText at h
  split at h
  · dsimp only at h
    split at h
    · cases h
    · cases h
      exact ⟨_, rfl, rfl⟩
  · cases h

/-- What is absent is read as null. -/
theorem Mapping.field_of_has_eq_false {name : String} {m : Mapping} (h : m.has name = false) :
    m.field name = .null := by
  rw [has, Option.isSome_eq_false_iff, Option.isNone_iff_eq_none] at h
  rw [field, h]
  rfl

/-! ## Fields -/

/-- The field is the one that a value declares. -/
structure Field.DeclaredBy (f : Field) (v : Value) : Prop where
  name : ∃ written, v.content.field "name" = .text written ∧ f.name = Text.strip written
  typeName : ∃ written, v.content.field "type" = .text written ∧ f.typeName = Text.strip written
  id : v.content.field "id" = (f.id.map Value.int).getD .null
  rule : (v.content.field "rule").unrolled = (f.rule.map Value.text).getD .null
  options : f.options = v.content.part "options"

namespace Field

theorem eq_of_parseId {label name source : String} {v : Value} {id : Option Int}
    (h : parseId label name source v = .ok id) : v = (id.map Value.int).getD .null := by
  unfold parseId at h
  split at h <;> cases h <;> rfl

theorem unrolled_of_parseRule {label name source : String} {v : Value} {rule : Option String}
    (h : parseRule label name source v = .ok rule) : v.unrolled = (rule.map Value.text).getD .null := by
  unfold parseRule at h
  split at h
  · rename_i hnull
    cases h
    exact hnull
  · rename_i htext
    split at h
    · cases h
      exact htext
    · cases h
  all_goals cases h

/-- What is read as a field declares it. -/
theorem declaredBy_of_parse {label source : String} {v : Value} {f : Field}
    (h : parse label source v = .ok f) : f.DeclaredBy v := by
  simp only [parse, bind_eq_ok_iff] at h
  obtain ⟨content, hcontent, name, hname, typeName, htype, id, hid, rule, hrule, options, hoptions, h⟩ := h
  cases h
  obtain rfl := Value.content_of_entries hcontent
  exact ⟨Value.text_of_nonEmptyText hname, Value.text_of_nonEmptyText htype, eq_of_parseId hid,
    unrolled_of_parseRule hrule, (Value.content_of_entriesOrNone hoptions).symm⟩

end Field

/-! ## Types -/

/-- The type is the one that a value declares: an enum if values are given, with the fields and the values
that are given. -/
structure TypeDecl.DeclaredBy (t : TypeDecl) (v : Value) : Prop where
  kind : t.kind = .enum ↔ v.content.has "values" = true
  fields : List.Forall₂ Field.DeclaredBy t.fields ((v.content.field "fields").fieldItems?.getD [])
  values : t.values.map (fun (name, n) => (some name, Value.int n)) =
    (v.content.part "values").map fun (key, number) => (key.label?, number)
  options : t.options = v.content.part "options"

/-- The names that a value gives to the values of an enum. -/
def Value.valueNames (v : Value) : List (Option String) :=
  (v.content.part "values").map fun entry => entry.1.label?

namespace TypeDecl

/-- The references of a type are not declared. -/
theorem declaredBy_mapFields_iff {t : TypeDecl} {g : Field → Field}
    (hg : ∀ f, (g f).bare = f.bare) {v : Value} :
    TypeDecl.DeclaredBy { t with fields := t.fields.map g } v ↔ t.DeclaredBy v := by
  have hfield : ∀ (f : Field) (item : Value), (g f).DeclaredBy item ↔ f.DeclaredBy item := by
    intro f item
    have h := hg f
    simp only [Field.bare, Field.mk.injEq] at h
    obtain ⟨hname, htype, hid, hrule, -, hoptions⟩ := h
    constructor
    · rintro ⟨h1, h2, h3, h4, h5⟩
      exact ⟨hname ▸ h1, htype ▸ h2, hid ▸ h3, hrule ▸ h4, hoptions ▸ h5⟩
    · rintro ⟨h1, h2, h3, h4, h5⟩
      exact ⟨hname ▸ h1, htype ▸ h2, hid ▸ h3, hrule ▸ h4, hoptions ▸ h5⟩
  have hfields : ∀ items : List Value, List.Forall₂ Field.DeclaredBy (t.fields.map g) items ↔
      List.Forall₂ Field.DeclaredBy t.fields items := by
    intro items
    rw [List.forall₂_map_left_iff]
    simp only [hfield]
  constructor
  · rintro ⟨hkind, hdeclared, hvalues, hoptions⟩
    exact ⟨hkind, (hfields _).1 hdeclared, hvalues, hoptions⟩
  · rintro ⟨hkind, hdeclared, hvalues, hoptions⟩
    exact ⟨hkind, (hfields _).2 hdeclared, hvalues, hoptions⟩

/-- Values of distinct names are read as they are given. -/
theorem map_values_of_parseValues {label source : String} {entries : Mapping} :
    ∀ {acc values : List (String × Int)}, parseValues label source acc entries = .ok values →
      (acc.map (fun value => some value.1) ++ entries.map fun entry => entry.1.label?).Nodup →
      values.map (fun (name, n) => (some name, Value.int n)) =
        acc.map (fun (name, n) => (some name, Value.int n)) ++
          entries.map fun (key, number) => (key.label?, number) := by
  induction entries with
  | nil =>
    intro acc values h _
    cases h
    simp
  | cons entry rest ih =>
    intro acc values h hnodup
    obtain ⟨key, v⟩ := entry
    simp only [parseValues, bind_eq_ok_iff] at h
    obtain ⟨name, hname, h⟩ := h
    have hlabel := Scalar.label_eq_ok_iff.1 hname
    split at h
    · rename_i n
      have hnew : name ∉ acc.map Prod.fst := by
        intro hmem
        obtain ⟨value, hvalue, rfl⟩ := List.mem_map.1 hmem
        refine (List.nodup_append.1 hnodup).2.2 _ (List.mem_map_of_mem hvalue) _ List.mem_cons_self ?_
        exact hlabel.symm
      rw [putValue_of_not_mem hnew] at h
      rw [ih h (by simpa [hlabel] using hnodup)]
      simp [hlabel]
    · cases h

/-- The values of a canonical type have distinct names, and so have those of the value that declares it. -/
theorem DeclaredBy.valueNames_nodup {t : TypeDecl} {v : Value} (h : t.DeclaredBy v)
    (hcanonical : t.Canonical) : v.valueNames.Nodup := by
  have hnames : v.valueNames = (t.values.map Prod.fst).map some := by
    have hvalues := congrArg (List.map Prod.fst) h.values
    simp only [List.map_map, Function.comp_def] at hvalues
    rw [List.map_map]
    exact hvalues.symm
  have hnodup : (t.values.map Prod.fst).Nodup := by
    cases hcanonical with
    | enum hvalues => exact hvalues
    | message _ _ => exact List.nodup_nil
  rw [hnames]
  exact hnodup.map fun _ _ => Option.some.inj

theorem declaredBy_of_parse {name owner source : String} {v : Value} {t : TypeDecl}
    (h : parse name owner source v = .ok t) (hnodup : v.valueNames.Nodup) : t.DeclaredBy v := by
  simp only [parse, bind_eq_ok_iff] at h
  obtain ⟨content, hcontent, options, hoptions, h⟩ := h
  obtain rfl := Value.content_of_entriesOrNone hcontent
  have hdeclaredOptions := (Value.content_of_entriesOrNone hoptions).symm
  split at h
  · cases h
  rename_i hboth
  split at h
  · rename_i hvalues
    simp only [bind_eq_ok_iff] at h
    obtain ⟨entries, hentries, values, hparsed, h⟩ := h
    cases h
    obtain rfl := Value.content_of_entries hentries
    have hnone : (v.content.field "fields").fieldItems? = some [] := by
      rw [Mapping.field_of_has_eq_false (by simpa [hvalues] using hboth)]
      rfl
    refine ⟨by simp [hvalues], ?_, map_values_of_parseValues hparsed hnodup, hdeclaredOptions⟩
    rw [hnone]
    exact .nil
  · rename_i hvalues
    split at h
    · cases h
    rename_i items hitems
    simp only [bind_eq_ok_iff] at h
    obtain ⟨fields, hfields, h⟩ := h
    split at h
    · cases h
    cases h
    have hpart : v.content.part "values" = [] := by
      rw [Mapping.part, Mapping.field_of_has_eq_false (by simpa using hvalues)]
      rfl
    refine ⟨by simp [hvalues], ?_, by rw [hpart]; rfl, hdeclaredOptions⟩
    rw [hitems, Option.getD_some]
    exact (forall₂_of_mapM hfields).imp fun _ _ => Field.declaredBy_of_parse

/-- **What is read as a type** is the type that is declared iff the names of its values are distinct. -/
theorem declaredBy_iff_of_parse {name owner source : String} {v : Value} {t : TypeDecl}
    (h : parse name owner source v = .ok t) : t.DeclaredBy v ↔ v.valueNames.Nodup :=
  ⟨fun hdeclared => hdeclared.valueNames_nodup (canonical_of_parse h).1, declaredBy_of_parse h⟩

end TypeDecl

end SchemaClosure
