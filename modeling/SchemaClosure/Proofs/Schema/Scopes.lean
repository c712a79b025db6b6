import Mathlib.Data.List.Infix
import SchemaClosure.Proofs.Schema.Loading

/-!
# Scopes

What the type of a field means, told on the tree alone. A dotted name is a way through namespaces that ends at a type
(`Namespace.typeAlong?`). It is gone from the root if there is a dot in front of it, else from the innermost of the
namespaces around the field, or the root, from which it ends at a type (`Schema.meaning?`).

The resolver works on dotted texts instead. Where no name is empty and no namespace has a dot in its name, both come to
the same (`Schema.referent?_eq_meaning?`), and loading either gives every field its meaning or names the first field
without one (`Schema.ofDocuments_scopes`).
-/

namespace SchemaClosure

/-- The type at the end of a way through namespaces: the last name is that of a type, each other one that of a
namespace. -/
def Namespace.typeAlong? : Namespace → List String → Option TypeDecl
  | _, [] => none
  | ns, [name] => (ns.child? name).bind Node.type?
  | ns, name :: next :: path =>
    ((ns.child? name).bind Node.space?).bind fun child => child.typeAlong? (next :: path)

namespace Schema

/-- The type at the end of a way from the root. -/
def typeAlong? (schema : Schema) : List String → Option TypeDecl
  | [] => none
  | name :: path => (schema.top? name).bind fun ns => ns.typeAlong? path

/-- The type at the end of a way from the namespace at a path, or from the root. -/
def typeFrom? (schema : Schema) : List String → List String → Option TypeDecl
  | [], way => schema.typeAlong? way
  | name :: path, way => (schema.spaceAt? (name :: path)).bind fun ns => ns.typeAlong? way

/-- The type that a dotted name means in the namespace at a path: with a dot in front what the rest leads to from the
root, else what it leads to from the innermost namespace around, or the root, from which it leads to a type. -/
def meaning? (schema : Schema) (path : List String) (typeName : String) : Option TypeDecl :=
  match Text.pieces '.' typeName with
  | "" :: name :: rest => schema.typeAlong? (name :: rest)
  | way => path.inits.reverse.findSome? fun scope => schema.typeFrom? scope way

/-- No name is empty, and no namespace has a dot in its name. -/
structure Spelled (schema : Schema) : Prop where
  dotFree : schema.DotFree
  space_ne : ∀ ns ∈ schema.spaces, ns.name ≠ ""
  type_ne : ∀ t ∈ schema.types, t.name ≠ ""

end Schema

/-! ## Ways and addresses -/

namespace Namespace

theorem typeAlong?_append (path : List String) {way : List String} (hway : way ≠ []) (ns : Namespace) :
    ns.typeAlong? (path ++ way) = (ns.descend? path).bind fun inner => inner.typeAlong? way := by
  induction path generalizing ns with
  | nil => rfl
  | cons first path ih =>
    have hstep : ns.typeAlong? (first :: path ++ way)
        = ((ns.child? first).bind Node.space?).bind fun child => child.typeAlong? (path ++ way) := by
      cases path with
      | nil =>
        cases way with
        | nil => exact absurd rfl hway
        | cons next way => rfl
      | cons second path => rfl
    rw [hstep, descend?, Option.bind_assoc (Option.bind _ _)]
    simp only [ih]

end Namespace

namespace Schema

variable {schema : Schema}

theorem typeAlong?_concat (schema : Schema) (path : List String) (name : String) :
    schema.typeAlong? (path ++ [name])
      = (schema.spaceAt? path).bind fun ns => (ns.child? name).bind Node.type? := by
  cases path with
  | nil =>
    rw [List.nil_append, typeAlong?, spaceAt?, Option.bind_none]
    cases schema.top? name <;> rfl
  | cons first path =>
    rw [List.cons_append, typeAlong?, spaceAt?, Option.bind_assoc]
    simp only [Namespace.typeAlong?_append path (List.cons_ne_nil name [])]
    rfl

/-- A way from a namespace is one from the root that passes through it. -/
theorem typeFrom?_eq (schema : Schema) (scope : List String) {way : List String} (hway : way ≠ []) :
    schema.typeFrom? scope way = schema.typeAlong? (scope ++ way) := by
  cases scope with
  | nil => rfl
  | cons first path =>
    rw [typeFrom?, List.cons_append, typeAlong?, spaceAt?, Option.bind_assoc]
    simp only [Namespace.typeAlong?_append path hway]

theorem At.ne_empty (hs : schema.Spelled) {path : List String} {ns : Namespace} (h : schema.At path ns) :
    "" ∉ path := by
  induction h with
  | top h => simpa using (hs.space_ne _ (mem_spaces_of_mem_namespaces h)).symm
  | child h hc ih =>
    have hchild := hs.space_ne _ (mem_spaces_of_mem h.mem_spaces hc)
    simpa [ih] using hchild.symm

theorem At.fullName_ne (hs : schema.Spelled) (wf : schema.WellFormed) {path : List String} {ns : Namespace}
    (h : schema.At path ns) : ns.fullName ≠ "" := by
  intro hempty
  have hpath : path = [""] := by rw [← h.pieces_fullName wf, hempty]; rfl
  exact h.ne_empty hs (by simp [hpath])

/-- The address that a dotted name spells is that of the type it leads to from the root. -/
theorem addressed?_eq_typeAlong? (wf : schema.WellFormed) (howned : schema.Owned) (hs : schema.Spelled)
    (fullName : String) :
    schema.addressed? fullName = (schema.typeAlong? (Text.pieces '.' fullName)).map TypeDecl.address := by
  unfold addressed?
  cases hcut : Text.cutLast? '.' fullName with
  | none =>
    rw [Text.pieces_of_cutLast?_eq_none hcut, ← List.nil_append [fullName], typeAlong?_concat]
    rfl
  | some parts =>
    obtain ⟨owner, name⟩ := parts
    have htype : schema.typeAlong? (Text.pieces '.' fullName) = schema.type? ⟨owner, name⟩ := by
      rw [Text.pieces_of_cutLast?_eq_some hcut, typeAlong?_concat, type?, space?, Option.bind_assoc]
    rw [htype]
    dsimp only
    cases ht : schema.type? ⟨owner, name⟩ with
    | none => simp
    | some t =>
      obtain ⟨hmem, haddress⟩ := (type?_eq_some_iff_address wf howned).1 ht
      obtain ⟨path, ns, hat, hns⟩ := mem_types_iff_at.1 hmem
      have howner : owner = ns.fullName := by
        rw [← howned ns hat.mem_spaces t hns]
        exact (congrArg TypeAddress.owner haddress).symm
      have hname : t.name = name := congrArg TypeAddress.name haddress
      have hne := hs.type_ne t hmem
      simp [haddress, howner, hat.fullName_ne hs wf, ← hname, hne]

/-- The names under which a name is tried in a namespace are the ways from it and from the namespaces around it. -/
theorem pieces_candidates (wf : schema.WellFormed) (hs : schema.Spelled) {path : List String} {ns : Namespace}
    (hat : schema.At path ns) (typeName : String) :
    (candidates ns.fullName typeName).map (Text.pieces '.')
      = path.inits.reverse.map fun scope => scope ++ Text.pieces '.' typeName := by
  have hempty : ns.fullName.isEmpty = false := by simpa using hat.fullName_ne hs wf
  simp only [candidates, hempty, Bool.false_eq_true, if_false, hat.pieces_fullName wf]
  have hinits : path.inits = (List.range (path.length + 1)).map path.take :=
    List.ext_getElem (by simp) fun n _ _ => by simp [List.getElem_inits]
  rw [hinits, ← List.map_reverse, List.map_map, List.map_map]
  refine List.map_congr_left fun depth _ => ?_
  rcases Nat.eq_zero_or_pos depth with rfl | hpos
  · simp [Text.join]
  · have hne : path.take depth ≠ [] := by
      have hlen := List.length_pos_iff.2 hat.ne_nil
      simp [hat.ne_nil]
      omega
    have hdot : ∀ name ∈ path.take depth, '.' ∉ name.toList :=
      fun name hname => hat.not_mem_dot wf.dotFree name (List.mem_of_mem_take hname)
    simp only [Function.comp_apply]
    rw [Text.join_concat hne, Text.pieces_continued hne hdot]

theorem meaning?_of_dot {path : List String} {typeName : String} {rest : List Char}
    (h : Chars.dropWord? ['.'] typeName.toList = some rest) :
    schema.meaning? path typeName = schema.typeAlong? (Text.pieces '.' (String.ofList rest)) := by
  rw [meaning?, Text.pieces_of_dropWord?_eq_some h]
  cases hrest : Text.pieces '.' (String.ofList rest) with
  | nil => exact absurd hrest (Text.pieces_ne_nil _)
  | cons name names => rfl

theorem meaning?_of_no_dot {path : List String} {typeName : String}
    (h : Chars.dropWord? ['.'] typeName.toList = none) : schema.meaning? path typeName
      = path.inits.reverse.findSome? fun scope => schema.typeAlong? (scope ++ Text.pieces '.' typeName) := by
  rw [meaning?]
  split
  · rename_i name rest hpieces
    exact absurd hpieces (Text.pieces_of_dropWord?_eq_none h name rest)
  · simp only [typeFrom?_eq schema _ (Text.pieces_ne_nil typeName)]

/-- **What a name refers to** is the address of the type that it means. -/
theorem referent?_eq_meaning? (wf : schema.WellFormed) (howned : schema.Owned) (hs : schema.Spelled)
    {path : List String} {ns : Namespace} (hat : schema.At path ns) (typeName : String) :
    schema.referent? ns.fullName typeName = (schema.meaning? path typeName).map TypeDecl.address := by
  have haddressed : schema.addressed? = fun s => (schema.typeAlong? (Text.pieces '.' s)).map TypeDecl.address :=
    funext (addressed?_eq_typeAlong? wf howned hs)
  unfold referent?
  cases hdrop : Chars.dropWord? ['.'] typeName.toList with
  | some rest => rw [meaning?_of_dot hdrop, haddressed]
  | none =>
    calc (candidates ns.fullName typeName).findSome? schema.addressed?
      _ = ((candidates ns.fullName typeName).map (Text.pieces '.')).findSome?
          fun way => (schema.typeAlong? way).map TypeDecl.address := by
        rw [haddressed, List.findSome?_map]
        rfl
      _ = path.inits.reverse.findSome? fun scope =>
          (schema.typeAlong? (scope ++ Text.pieces '.' typeName)).map TypeDecl.address := by
        rw [pieces_candidates wf hs hat, List.findSome?_map]
        rfl
      _ = (schema.meaning? path typeName).map TypeDecl.address := by
        rw [meaning?_of_no_dot hdrop, List.map_findSome?]
        rfl

/-! ## Loading -/

/-- A field means something, or need not. -/
def Resolvable (schema : Schema) (path : List String) (f : Field) : Prop :=
  f.typeName ∈ builtinTypes ∨ (schema.meaning? path f.typeName).isSome

instance (schema : Schema) (path : List String) (f : Field) : Decidable (schema.Resolvable path f) :=
  inferInstanceAs (Decidable (_ ∨ _))

/-- A field of a type in the namespace at a path, with what its type means. -/
def interpret (schema : Schema) (path : List String) (f : Field) : Field :=
  { f with
    resolved := if f.typeName ∈ builtinTypes then none
      else (schema.meaning? path f.typeName).map TypeDecl.address }

end Schema

/-- The names of the namespaces around a type, the outermost first. -/
def TypeDecl.path (t : TypeDecl) : List String := Text.pieces '.' t.owner

namespace Schema

variable {schema : Schema}

theorem path_of_at (wf : schema.WellFormed) (howned : schema.Owned) {path : List String} {ns : Namespace}
    (hat : schema.At path ns) {t : TypeDecl} (ht : t ∈ ns.types) : t.path = path := by
  rw [TypeDecl.path, howned ns hat.mem_spaces t ht, hat.pieces_fullName wf]

theorem referent?_eq_meaning?_path (wf : schema.WellFormed) (howned : schema.Owned) (hs : schema.Spelled)
    {t : TypeDecl} (ht : t ∈ schema.types) (typeName : String) :
    schema.referent? t.owner typeName = (schema.meaning? t.path typeName).map TypeDecl.address := by
  obtain ⟨path, ns, hat, hns⟩ := mem_types_iff_at.1 ht
  rw [path_of_at wf howned hat hns, howned ns hat.mem_spaces t hns, referent?_eq_meaning? wf howned hs hat]

theorem resolveField_eq_interpret (wf : schema.WellFormed) (howned : schema.Owned) (hs : schema.Spelled)
    {t : TypeDecl} (ht : t ∈ schema.types) (f : Field) :
    schema.resolveField t.owner f = schema.interpret t.path f := by
  simp [resolveField, interpret, referent?_eq_meaning?_path wf howned hs ht]

theorem isUnresolvable_eq_false_iff (wf : schema.WellFormed) (howned : schema.Owned) (hs : schema.Spelled)
    {t : TypeDecl} (ht : t ∈ schema.types) (f : Field) :
    schema.isUnresolvable t.owner f = false ↔ schema.Resolvable t.path f := by
  simp only [isUnresolvable, Resolvable, referent?_eq_meaning?_path wf howned hs ht]
  by_cases hbuiltin : f.typeName ∈ builtinTypes <;> simp [hbuiltin, Option.isSome_iff_ne_none]

theorem mem_fields {t : TypeDecl} {f : Field} : (t, f) ∈ schema.fields ↔ t ∈ schema.types ∧ f ∈ t.fields := by
  simp [fields]

/-- What does not load although it merges has a first field that refers to nothing. -/
theorem firstUnresolvable?_of_ofDocuments {documents : List SchemaDocument} {merged : Schema} {e : LoadError}
    (hmerge : mergeAll ⟨[]⟩ documents = .ok merged) (h : ofDocuments documents = .error e) :
    ∃ before t f after, merged.fields = before ++ (t, f) :: after ∧
      (∀ earlier ∈ before, merged.isUnresolvable earlier.1.owner earlier.2 = false) ∧
      merged.isUnresolvable t.owner f = true ∧ e = .unresolvable f.typeName t.fullName f.name := by
  rw [ofDocuments, bind_eq_error_iff, hmerge] at h
  rcases h with h | ⟨_, heq, h⟩
  · cases h
  · cases heq
    cases hfirst : merged.firstUnresolvable? with
    | none => simp [resolve, hfirst, pure, Except.pure] at h
    | some found =>
      obtain ⟨⟨t, f⟩, hfound, rfl⟩ := Option.map_eq_some_iff.1 hfirst
      obtain ⟨hunresolvable, before, after, heq, hbefore⟩ := List.find?_eq_some_iff_append.1 hfound
      simp only [resolve, hfirst, throw, throwThe, MonadExceptOf.throw, Except.error.injEq] at h
      exact ⟨before, t, f, after, heq, fun earlier hearlier => by simpa using hbefore earlier hearlier, hunresolvable,
        h.symm⟩

/-- **Loading gives every field its meaning, or names the first one without.** Documents that merge into a schema whose
names can stand between dots load iff every field of it is resolvable. What is loaded is the merged schema with every
field interpreted in the namespaces around it; otherwise the error names the first field that is not resolvable, where
the types of a namespace come before those of the namespaces in it. -/
theorem ofDocuments_scopes {documents : List SchemaDocument} {merged : Schema}
    (hmerge : mergeAll ⟨[]⟩ documents = .ok merged) (hs : merged.Spelled) :
    (∀ path ns, merged.At path ns → ∀ t ∈ ns.types, t.path = path) ∧
    merged.types = merged.spaces.flatMap Namespace.types ∧
    ((∃ schema, ofDocuments documents = .ok schema) ↔
      ∀ t ∈ merged.types, ∀ f ∈ t.fields, merged.Resolvable t.path f) ∧
    (∀ schema, ofDocuments documents = .ok schema →
      schema = merged.mapTypes fun t => { t with fields := t.fields.map (merged.interpret t.path) }) ∧
    ∀ e, ofDocuments documents = .error e → ∃ before t f after, merged.fields = before ++ (t, f) :: after ∧
      (∀ earlier ∈ before, merged.Resolvable earlier.1.path earlier.2) ∧ ¬ merged.Resolvable t.path f ∧
      e.message? = some s!"Unresolvable type '{f.typeName}' for field {t.fullName}.{f.name}" := by
  have hmerged : merged.Merged := (Merged.mk (by simp) (by simp) (by simp [spaces, Node.allSpaces])).mergeAll hmerge
  have wf : merged.WellFormed := ⟨hmerged.toConsistent, hs.dotFree⟩
  have howned := hmerged.owned
  have hresolvable : ∀ t ∈ merged.types, ∀ f,
      merged.isUnresolvable t.owner f = false ↔ merged.Resolvable t.path f :=
    fun t ht f => isUnresolvable_eq_false_iff wf howned hs ht f
  refine ⟨fun path ns hat t ht => path_of_at wf howned hat ht, merged.types_eq_flatMap, ?_, ?_, ?_⟩
  · constructor
    · rintro ⟨schema, hschema⟩ t ht f hf
      obtain ⟨_, hsame, -, hall⟩ := ofDocuments_eq_ok_iff.1 hschema
      cases hmerge.symm.trans hsame
      exact (hresolvable t ht f).1 (hall t ht f hf)
    · intro hall
      exact ⟨_, ofDocuments_eq_ok_iff.2 ⟨merged, hmerge, rfl, fun t ht f hf => (hresolvable t ht f).2 (hall t ht f hf)⟩⟩
  · intro schema hschema
    obtain ⟨_, hsame, rfl, -⟩ := ofDocuments_eq_ok_iff.1 hschema
    cases hmerge.symm.trans hsame
    rw [resolveAll_eq_mapTypes]
    refine mapTypes_congr fun t ht => ?_
    rw [resolveType, funext (resolveField_eq_interpret wf howned hs ht)]
  · intro e he
    obtain ⟨before, t, f, after, heq, hbefore, hfound, rfl⟩ := firstUnresolvable?_of_ofDocuments hmerge he
    have hfields : ∀ p ∈ before ++ (t, f) :: after, p.1 ∈ merged.types := by
      rintro ⟨u, g⟩ hp
      exact (mem_fields.1 (heq ▸ hp)).1
    have ht := hfields (t, f) (by simp)
    refine ⟨before, t, f, after, heq, fun earlier hearlier => ?_, ?_, rfl⟩
    · exact (hresolvable _ (hfields earlier (by simp [hearlier])) _).1 (hbefore earlier hearlier)
    · rw [← hresolvable t ht, hfound]
      simp

/-! ### A namespace with the name of an outer one -/

/-- An order in `shop` that refers to two types in `audit`. The namespace `shop.audit` has one of them only. -/
def auditedDocument : SchemaDocument :=
  ⟨"shop", [(.text "namespaces", .record [
    ("shop", .record [
      ("types", .record [("Order", .record [("fields", .list none [
        .record [("name", .text "number"), ("type", .text "int32")],
        .record [("name", .text "entry"), ("type", .text "audit.Entry")],
        .record [("name", .text "actor"), ("type", .text "audit.Actor")]])])]),
      ("namespaces", .record [("audit", .record [("types", .record [("Entry", .null)])])])]),
    ("audit", .record [("types", .record [("Actor", .null), ("Entry", .null)])])])]⟩

/-- The schema that it declares, before its references are resolved. -/
def auditedMerged : Schema :=
  ⟨[⟨"shop", "shop", [], [
      .type ⟨"Order", "shop", .message, [⟨"number", "int32", none, none, none, []⟩,
        ⟨"entry", "audit.Entry", none, none, none, []⟩, ⟨"actor", "audit.Actor", none, none, none, []⟩], [], []⟩,
      .space "audit" "shop.audit" [] [.type ⟨"Entry", "shop.audit", .message, [], [], []⟩]]⟩,
    ⟨"audit", "audit", [], [.type ⟨"Actor", "audit", .message, [], [], []⟩,
      .type ⟨"Entry", "audit", .message, [], [], []⟩]⟩]⟩

/-- The entry is that of the inner namespace, the actor that of the outer one. -/
theorem ofDocuments_scopes_audited :
    mergeAll ⟨[]⟩ [auditedDocument] = .ok auditedMerged ∧ auditedMerged.Spelled ∧
    ∃ schema, ofDocuments [auditedDocument] = .ok schema ∧
      schema.types.map (fun t => t.fields.map Field.resolved) =
        [[none, some ⟨"shop.audit", "Entry"⟩, some ⟨"audit", "Actor"⟩], [], [], []] := by
  have hmerge : mergeAll ⟨[]⟩ [auditedDocument] = .ok auditedMerged := rfl
  have hs : auditedMerged.Spelled := by
    refine ⟨by decide, by decide, ?_⟩
    rw [types_eq_flatMap]
    decide
  obtain ⟨-, htypes, hloads, hschema, -⟩ := ofDocuments_scopes hmerge hs
  obtain ⟨schema, hok⟩ := hloads.2 (by rw [htypes]; decide +kernel)
  refine ⟨hmerge, hs, schema, hok, ?_⟩
  rw [hschema schema hok, types_mapTypes, htypes]
  decide +kernel

end Schema

end SchemaClosure
