import Mathlib.Data.List.DropRight
import Mathlib.Data.List.Forall2
import Mathlib.Data.List.Nodup
import SchemaClosure.Schema.Export
import SchemaClosure.Schema.Loading

/-!
# Declarations of types

What a declaration can give is `TypeDecl.Canonical`: names without white space around them, no name
twice, and nothing of the other kind. The document of a canonical type declares it again, up to the
references, which are not written (`parse_toValue`).
-/

namespace SchemaClosure

/-! ## Results of several steps -/

theorem bind_eq_ok_iff {ε α β : Type} {x : Except ε α} {f : α → Except ε β} {b : β} :
    x >>= f = .ok b ↔ ∃ a, x = .ok a ∧ f a = .ok b := by
  cases x <;> simp [bind, Except.bind]

theorem bind_eq_error_iff {ε α β : Type} {x : Except ε α} {f : α → Except ε β} {e : ε} :
    x >>= f = .error e ↔ x = .error e ∨ ∃ a, x = .ok a ∧ f a = .error e := by
  cases x <;> simp [bind, Except.bind]

theorem map_eq_ok_iff {ε α β : Type} {x : Except ε α} {f : α → β} {b : β} :
    x.map f = .ok b ↔ ∃ a, x = .ok a ∧ f a = b := by
  cases x <;> simp [Except.map]

theorem Scalar.label_eq_ok_iff {key : Scalar} {source name : String} :
    key.label source = .ok name ↔ key.label? = some name := by
  unfold label
  cases key.label? <;> simp

theorem forall₂_of_mapM {ε α β : Type} {f : α → Except ε β} {l : List α} : ∀ {out : List β},
    l.mapM f = .ok out → List.Forall₂ (fun b a => f a = .ok b) out l := by
  induction l with
  | nil =>
    intro out h
    cases h
    exact .nil
  | cons a rest ih =>
    intro out h
    simp only [List.mapM_cons, bind_eq_ok_iff] at h
    obtain ⟨first, hfirst, others, hothers, h⟩ := h
    cases h
    exact .cons hfirst (ih hothers)

theorem mapM_map_eq_ok {ε α β γ : Type} {f : β → Except ε γ} {g : α → β} {k : α → γ} {l : List α}
    (h : ∀ a ∈ l, f (g a) = .ok (k a)) : (l.map g).mapM f = .ok (l.map k) := by
  induction l with
  | nil => rfl
  | cons a rest ih =>
    simp only [List.map_cons, List.mapM_cons, bind_eq_ok_iff]
    exact ⟨k a, h a List.mem_cons_self, rest.map k, ih fun b hb => h b (List.mem_cons_of_mem _ hb), rfl⟩

/-- A name that is put in place or at the end stays the only one. -/
theorem nodup_put {names : List String} (h : names.Nodup) (name : String) :
    (if name ∈ names then names else names ++ [name]).Nodup := by
  split
  · exact h
  · rename_i hname
    rw [← List.concat_eq_append]
    exact List.Nodup.concat hname h

/-! ## Trimmed texts -/

theorem Chars.strip_strip (s : List Char) : Chars.strip (Chars.strip s) = Chars.strip s := by
  have hright : ∀ t, Chars.stripRight t = t.rdropWhile Text.isBlank := fun _ => rfl
  have hleft : Chars.stripLeft (Chars.strip s) = Chars.strip s := by
    rw [Chars.stripLeft, List.dropWhile_eq_self_iff]
    intro hlen
    -- what is left starts like the text without its leading blanks
    have hstart : Chars.strip s <+: Chars.stripLeft s := by
      rw [Chars.strip, hright]
      exact List.rdropWhile_prefix _ _
    have hlen' : 0 < (Chars.stripLeft s).length := lt_of_lt_of_le hlen hstart.length_le
    rw [hstart.getElem hlen]
    exact List.dropWhile_eq_self_iff.1 (List.dropWhile_idempotent Text.isBlank s) hlen'
  rw [Chars.strip, hleft]
  exact List.rdropWhile_idempotent Text.isBlank _

/-- The text is not blank, and there is no white space at its ends. -/
def Text.IsTrimmed (s : String) : Prop := Text.strip s = s ∧ s.isEmpty = false

namespace Value

theorem isTrimmed_of_nonEmptyText {label source : String} {v : Value} {s : String}
    (h : v.nonEmptyText label source = .ok s) : Text.IsTrimmed s := by
  unfold nonEmptyText at h
  split at h
  · dsimp only at h
    split at h
    · cases h
    · rename_i hne
      cases h
      refine ⟨?_, by simpa using hne⟩
      simp [Text.strip, Chars.strip_strip]
  · cases h

theorem nonEmptyText_text {label source s : String} (h : Text.IsTrimmed s) :
    (Value.text s).nonEmptyText label source = .ok s := by
  simp [nonEmptyText, h.1, h.2]

end Value

/-! ## Written mappings -/

/-- The mapping of some entries under their names, as it is written. -/
def Mapping.named (entries : List (String × Value)) : Mapping := entries.map fun (k, v) => (.text k, v)

namespace Value

/-- The entry of a written mapping is the one of its name. -/
theorem get?_named (entries : List (String × Value)) (name : String) :
    Mapping.get? (.text name) (Mapping.named entries) = entries.lookup name := by
  induction entries with
  | nil => rfl
  | cons entry rest ih =>
    obtain ⟨k, v⟩ := entry
    by_cases h : name = k
    · simp [Mapping.named, Mapping.get?, Scalar.same, h]
    · have h' : (name == k) = false := by simpa using h
      have hrest : Mapping.get? (.text name) (Mapping.named ((k, v) :: rest)) =
          Mapping.get? (.text name) (Mapping.named rest) := by
        simp [Mapping.named, Mapping.get?, Scalar.same, Ne.symm h]
      simp [hrest, ih, List.lookup_cons, h']

/-- A written mapping is read as the entries that it has. -/
theorem entriesOrNone_mapping {label source : String} (m : Mapping) :
    (Value.mapping none m).entriesOrNone label source = .ok m := by
  cases m <;> rfl

theorem field_named (entries : List (String × Value)) (name : String) :
    Mapping.field name (Mapping.named entries) = (entries.lookup name).getD .null := by
  rw [Mapping.field, get?_named]

theorem has_named (entries : List (String × Value)) (name : String) :
    Mapping.has name (Mapping.named entries) = (entries.lookup name).isSome := by
  rw [Mapping.has, get?_named]

/-- Options are read as they were written, and as none if they were left out. -/
theorem entriesOrNone_options {label source : String} (options : Mapping) :
    (((optionsEntry options).lookup "options").getD .null).entriesOrNone label source = .ok options := by
  by_cases h : options.isEmpty
  · rw [List.isEmpty_iff] at h
    simp [h, optionsEntry, entriesOrNone, isVoid, Scalar.isVoid]
  · simp [h, optionsEntry, entriesOrNone_mapping]

theorem lookup_optionsEntry {options : Mapping} {name : String} (h : name ≠ "options") :
    (optionsEntry options).lookup name = none := by
  unfold optionsEntry
  split
  · rfl
  · simp [h]

end Value

/-! ## Fields -/

/-- What the declaration of a field can give. -/
structure Field.Canonical (f : Field) : Prop where
  name : Text.IsTrimmed f.name
  typeName : Text.IsTrimmed f.typeName
  rule : ∀ word ∈ f.rule, word ∈ ruleWords

/-- A field as it is before its reference is resolved. -/
def Field.bare (f : Field) : Field := { f with resolved := none }

namespace Field

theorem mem_ruleWords_of_parseRule {label name source : String} {v : Value} {rule : Option String}
    (h : parseRule label name source v = .ok rule) : ∀ word ∈ rule, word ∈ ruleWords := by
  unfold parseRule at h
  split at h
  · cases h
    simp
  · split at h
    · rename_i hmem
      cases h
      simpa using hmem
    · cases h
  all_goals cases h

theorem canonical_of_parse {label source : String} {v : Value} {f : Field}
    (h : parse label source v = .ok f) : f.Canonical := by
  simp only [parse, bind_eq_ok_iff] at h
  obtain ⟨content, -, name, hname, typeName, htype, id, -, rule, hrule, options, -, h⟩ := h
  cases h
  exact ⟨Value.isTrimmed_of_nonEmptyText hname, Value.isTrimmed_of_nonEmptyText htype,
    mem_ruleWords_of_parseRule hrule⟩

/-- The entries of the document of a field. -/
def entries (f : Field) : List (String × Value) :=
  [("name", .text f.name), ("type", .text f.typeName)]
    ++ f.id.toList.map (fun n => ("id", .int n))
    ++ f.rule.toList.map (fun s => ("rule", .text s))
    ++ Value.optionsEntry f.options

theorem lookup_id (f : Field) : f.entries.lookup "id" = f.id.map Value.int := by
  unfold entries
  cases f.id <;> cases f.rule <;> simp [List.lookup_cons, Value.lookup_optionsEntry]

theorem lookup_rule (f : Field) : f.entries.lookup "rule" = f.rule.map Value.text := by
  unfold entries
  cases f.id <;> cases f.rule <;> simp [List.lookup_cons, Value.lookup_optionsEntry]

theorem lookup_options (f : Field) :
    f.entries.lookup "options" = (Value.optionsEntry f.options).lookup "options" := by
  unfold entries
  cases f.id <;> cases f.rule <;> simp [List.lookup_cons]

theorem parseId_map (label name source : String) (id : Option Int) :
    parseId label name source ((id.map Value.int).getD .null) = .ok id := by
  cases id <;> rfl

theorem parseRule_map {label name source : String} {rule : Option String}
    (h : ∀ word ∈ rule, word ∈ ruleWords) :
    parseRule label name source ((rule.map Value.text).getD .null) = .ok rule := by
  cases rule with
  | none => rfl
  | some word =>
    have hword : word ∈ ruleWords := h word rfl
    simp [parseRule, Value.unrolled, hword]

/-- The document of a field declares it. -/
theorem parse_toValue {f : Field} (h : f.Canonical) (label source : String) :
    parse label source f.toValue = .ok f.bare := by
  have hname : f.entries.lookup "name" = some (.text f.name) := rfl
  have htype : f.entries.lookup "type" = some (.text f.typeName) := rfl
  simp only [parse, bind_eq_ok_iff]
  refine ⟨Mapping.named f.entries, rfl, f.name, ?_, f.typeName, ?_, f.id, ?_, f.rule, ?_,
    f.options, ?_, rfl⟩
  · rw [Value.field_named, hname]
    exact Value.nonEmptyText_text h.name
  · rw [Value.field_named, htype]
    exact Value.nonEmptyText_text h.typeName
  · rw [Value.field_named, lookup_id]
    exact parseId_map ..
  · rw [Value.field_named, lookup_rule]
    exact parseRule_map h.rule
  · rw [Value.field_named, lookup_options]
    exact Value.entriesOrNone_options f.options

theorem firstRepeated?_eq_none_iff {fields : List Field} : ∀ {seen : List String},
    firstRepeated? seen fields = none ↔
      (∀ f ∈ fields, f.name ∉ seen) ∧ (fields.map Field.name).Nodup := by
  induction fields with
  | nil => simp [firstRepeated?]
  | cons f rest ih =>
    intro seen
    by_cases hseen : f.name ∈ seen
    · simp [firstRepeated?, hseen]
    · have hcontains : seen.contains f.name = false := by simpa using hseen
      rw [firstRepeated?, hcontains, if_neg Bool.false_ne_true, ih, List.forall_mem_cons]
      simp only [List.mem_cons, not_or, List.map_cons, List.nodup_cons, List.mem_map, not_exists, not_and]
      constructor
      · rintro ⟨hrest, hnodup⟩
        exact ⟨⟨hseen, fun g hg => (hrest g hg).2⟩, fun g hg => (hrest g hg).1, hnodup⟩
      · rintro ⟨⟨-, hrest⟩, hne, hnodup⟩
        exact ⟨fun g hg => ⟨hne g hg, hrest g hg⟩, hnodup⟩

end Field

/-! ## Types -/

/-- What the declaration of a type can give. -/
inductive TypeDecl.Canonical : TypeDecl → Prop
  | enum {name owner : String} {values : List (String × Int)} {options : Mapping} :
    (values.map Prod.fst).Nodup → TypeDecl.Canonical ⟨name, owner, .enum, [], values, options⟩
  | message {name owner : String} {fields : List Field} {options : Mapping} :
    (∀ f ∈ fields, f.Canonical) → (fields.map Field.name).Nodup →
    TypeDecl.Canonical ⟨name, owner, .message, fields, [], options⟩

/-- Fields may change in what is not declared. -/
theorem TypeDecl.Canonical.mapFields {t : TypeDecl} (h : t.Canonical) {g : Field → Field}
    (hg : ∀ f, (g f).name = f.name ∧ (g f).typeName = f.typeName ∧ (g f).rule = f.rule) :
    TypeDecl.Canonical { t with fields := t.fields.map g } := by
  cases h with
  | enum hvalues => exact .enum hvalues
  | @message name owner fields options hfields hnames =>
    refine .message ?_ ?_
    · intro f' hf'
      obtain ⟨f, hf, rfl⟩ := List.mem_map.1 hf'
      obtain ⟨hname, htype, hrule⟩ := hg f
      have hfield := hfields f hf
      exact ⟨hname ▸ hfield.name, htype ▸ hfield.typeName, hrule ▸ hfield.rule⟩
    · have hsame : (fields.map g).map Field.name = fields.map Field.name := by
        rw [List.map_map]
        exact List.map_congr_left fun f _ => (hg f).1
      rwa [hsame]

/-- A type as it is before its references are resolved. -/
def TypeDecl.bare (t : TypeDecl) : TypeDecl := { t with fields := t.fields.map Field.bare }

namespace TypeDecl

theorem names_putValue (name : String) (number : Int) (values : List (String × Int)) :
    (putValue name number values).map Prod.fst =
      if name ∈ values.map Prod.fst then values.map Prod.fst else values.map Prod.fst ++ [name] := by
  induction values with
  | nil => rfl
  | cons value rest ih =>
    obtain ⟨n, m⟩ := value
    by_cases h : n = name
    · simp [putValue, h]
    · simp only [putValue, h, if_false, List.map_cons, ih, List.mem_cons, Ne.symm h, false_or]
      split <;> rfl

theorem nodup_putValue {name : String} {number : Int} {values : List (String × Int)}
    (h : (values.map Prod.fst).Nodup) : ((putValue name number values).map Prod.fst).Nodup := by
  rw [names_putValue]
  exact nodup_put h name

theorem putValue_of_not_mem {name : String} {number : Int} {values : List (String × Int)}
    (h : name ∉ values.map Prod.fst) : putValue name number values = values ++ [(name, number)] := by
  induction values with
  | nil => rfl
  | cons value rest ih =>
    obtain ⟨n, m⟩ := value
    simp only [List.map_cons, List.mem_cons, not_or] at h
    simp [putValue, Ne.symm h.1, ih h.2]

theorem nodup_parseValues {label source : String} {entries : Mapping} :
    ∀ {acc values : List (String × Int)}, parseValues label source acc entries = .ok values →
      (acc.map Prod.fst).Nodup → (values.map Prod.fst).Nodup := by
  induction entries with
  | nil =>
    intro acc values h hacc
    cases h
    exact hacc
  | cons entry rest ih =>
    intro acc values h hacc
    obtain ⟨key, v⟩ := entry
    simp only [parseValues, bind_eq_ok_iff] at h
    obtain ⟨name, -, h⟩ := h
    split at h
    · exact ih h (nodup_putValue hacc)
    · cases h

/-- A declaration gives a canonical type of the name and the owner that it stands under. -/
theorem canonical_of_parse {name owner source : String} {v : Value} {t : TypeDecl}
    (h : parse name owner source v = .ok t) : t.Canonical ∧ t.name = name ∧ t.owner = owner := by
  simp only [parse, bind_eq_ok_iff] at h
  obtain ⟨content, -, options, -, h⟩ := h
  split at h
  · cases h
  split at h
  · simp only [bind_eq_ok_iff] at h
    obtain ⟨entries, -, values, hvalues, h⟩ := h
    cases h
    exact ⟨.enum (nodup_parseValues hvalues List.nodup_nil), rfl, rfl⟩
  · split at h
    · cases h
    · rename_i items hitems
      simp only [bind_eq_ok_iff] at h
      obtain ⟨fields, hfields, h⟩ := h
      split at h
      · cases h
      · rename_i hrepeated
        cases h
        have hcanonical : fields.Forall₂ (fun f item => f.Canonical ∧ Field.parse _ source item = .ok f) items :=
          (forall₂_of_mapM hfields).imp fun f item hitem => ⟨Field.canonical_of_parse hitem, hitem⟩
        exact ⟨.message ((List.forall₂_and_left _ _).1 hcanonical).1
          (Field.firstRepeated?_eq_none_iff.1 hrepeated).2, rfl, rfl⟩

theorem parseValues_map {label source : String} {values : List (String × Int)} :
    ∀ acc : List (String × Int), ((acc ++ values).map Prod.fst).Nodup →
      parseValues label source acc (values.map fun (name, n) => (.text name, .int n)) =
        .ok (acc ++ values) := by
  induction values with
  | nil =>
    intro acc _
    simp [parseValues]
  | cons value rest ih =>
    intro acc h
    obtain ⟨name, n⟩ := value
    have hput : putValue name n acc = acc ++ [(name, n)] := by
      apply putValue_of_not_mem
      rw [List.map_append, List.nodup_append] at h
      exact fun hname => h.2.2 name hname name (by simp) rfl
    have hrest : ((acc ++ [(name, n)] ++ rest).map Prod.fst).Nodup := by simpa using h
    simp only [List.map_cons, parseValues, bind_eq_ok_iff]
    refine ⟨name, rfl, ?_⟩
    rw [hput, ih _ hrest]
    simp

/-- The entries of the document of a type. -/
def entries (t : TypeDecl) : List (String × Value) :=
  (match t.kind with
    | .enum => [("values", .record (t.values.map fun (name, n) => (name, .int n)))]
    | .message => [("fields", .list none (t.fields.map Field.toValue))])
  ++ Value.optionsEntry t.options

/-- **The document of a type declares it**, up to the references. -/
theorem parse_toValue {t : TypeDecl} (h : t.Canonical) (source : String) :
    parse t.name t.owner source t.toValue = .ok t.bare := by
  simp only [parse, bind_eq_ok_iff]
  refine ⟨Mapping.named t.entries, Value.entriesOrNone_mapping _, t.options, ?_, ?_⟩
  · rw [Value.field_named]
    have hlookup : t.entries.lookup "options" = (Value.optionsEntry t.options).lookup "options" := by
      unfold entries
      cases t.kind <;> simp [List.lookup_cons]
    rw [hlookup]
    exact Value.entriesOrNone_options t.options
  · cases h with
    | @enum name owner values options hvalues =>
      have hfields : (entries ⟨name, owner, .enum, [], values, options⟩).lookup "fields" = none := by
        simp [entries, List.lookup_cons, Value.lookup_optionsEntry]
      have hentry : (entries ⟨name, owner, .enum, [], values, options⟩).lookup "values" =
          some (.record (values.map fun (name, n) => (name, .int n))) := rfl
      simp only [Value.has_named, Value.field_named, hfields, hentry, Option.isSome_none,
        Option.isSome_some, Bool.false_and, Bool.false_eq_true, if_false, if_true, bind_eq_ok_iff, Option.getD_some]
      refine ⟨values.map fun (name, n) => (.text name, .int n), ?_, values, ?_, rfl⟩
      · simp [Value.entries, Value.record, Value.unrolled]
      · exact parseValues_map [] (by simpa using hvalues)
    | @message name owner fields options hfields hnames =>
      have hvalues : (entries ⟨name, owner, .message, fields, [], options⟩).lookup "values" = none := by
        simp [entries, List.lookup_cons, Value.lookup_optionsEntry]
      have hentry : (entries ⟨name, owner, .message, fields, [], options⟩).lookup "fields" =
          some (.list none (fields.map Field.toValue)) := rfl
      simp only [Value.has_named, Value.field_named, hvalues, hentry, Option.isSome_none,
        Option.isSome_some, Bool.and_false, Bool.false_eq_true, if_false, Option.getD_some, Value.fieldItems?,
        Value.unrolled, bind_eq_ok_iff]
      refine ⟨fields.map Field.bare, mapM_map_eq_ok fun f hf => Field.parse_toValue (hfields f hf) _ _, ?_⟩
      have hrepeated : Field.firstRepeated? [] (fields.map Field.bare) = none := by
        refine Field.firstRepeated?_eq_none_iff.2 ⟨by simp, ?_⟩
        rwa [List.map_map]
      rw [hrepeated]
      rfl

end TypeDecl

end SchemaClosure
