import SchemaClosure.Proofs.Schema.Statements

/-!
# Which errors loading reports

Loading documents fails with an error that has a message, apart from three kinds of flaws in a document
(`SchemaDocument.Flawed`): a key that should give a name and gives none, the rule of a field that is a list or a
mapping, and namespaces that lead back into knots too often. Each step of the loader is shown to report whatever
is not such a flaw (`Reports`), along the recursion of the loader through the value.

Main theorem `ofDocuments_reports`: documents without flaws load with all their references, or are refused with a
message. `ofDocuments_listRule` is a document that is refused without one.
-/

namespace SchemaClosure

/-! ## Flaws -/

/-- The value is a list or a mapping. -/
def Value.IsCollection (v : Value) : Prop :=
  (∃ mark items, v.unrolled = .list mark items) ∨ ∃ mark entries, v.unrolled = .mapping mark entries

/-- Some key gives no name. -/
def Mapping.Nameless (m : Mapping) : Prop := ∃ entry ∈ m, entry.1.label? = none

/-- The definition of a type has an enum value without a name, or a field whose rule is a list or a mapping. -/
def Value.FlawedType (definition : Value) : Prop :=
  (definition.content.part "values").Nameless ∨
    ∃ items, (definition.content.field "fields").fieldItems? = some items ∧
      ∃ item ∈ items, (item.content.field "rule").IsCollection

/-- A declaration has a flaw of its own, apart from what stands in the namespaces in it. -/
def Declaration.Flawed : Declaration → Prop
  | .space content => (content.part "types").Nameless ∨ (content.part "namespaces").Nameless
  | .type _ definition => definition.FlawedType

/-- A namespace has a flaw in its declaration. -/
def Value.Flawed (v : Value) : Prop := ∃ place keys d, v.Declares place keys d ∧ d.Flawed

/-- The declaration of a namespace leads to nested ones through as many knots. -/
inductive Value.Nests : Nat → Value → Prop
  | here {v : Value} : Value.Nests 0 v
  | knot {n : Nat} {mark : Mark} {body : Value} :
    Value.Nests n (Value.knot mark body).unrolled → Value.Nests (n + 1) (.knot mark body)
  | inside {n : Nat} {mark : Option Mark} {content : Mapping} {key : Scalar} {v : Value} :
    (key, v) ∈ content.part "namespaces" → Value.Nests n v → Value.Nests n (.mapping mark content)
  | behind {n : Nat} {mark : Option Mark} {content : Mapping} {inner : Mark} {body : Value} {key : Scalar}
      {v : Value} :
    content.field "namespaces" = .knot inner body → (key, v) ∈ content.part "namespaces" → Value.Nests n v →
    Value.Nests (n + 1) (.mapping mark content)

/-- What leads through many knots leads through fewer. -/
theorem Value.Nests.of_succ {n : Nat} {v : Value} (h : v.Nests (n + 1)) : v.Nests n := by
  generalize hm : n + 1 = m at h
  induction h generalizing n with
  | here => cases hm
  | @knot m _ _ _ ih =>
    rw [Nat.succ.inj hm]
    cases m with
    | zero => exact .here
    | succ m => exact .knot (ih rfl)
  | inside hmem _ ih => exact .inside hmem (ih hm)
  | @behind m _ _ _ _ _ _ hknot hmem _ ih =>
    rw [Nat.succ.inj hm]
    cases m with
    | zero => exact .here
    | succ m => exact .behind hknot hmem (ih rfl)

/-- A document has a flaw that is not reported. -/
def SchemaDocument.Flawed (document : SchemaDocument) : Prop :=
  (document.content.part "namespaces").Nameless ∨
    ∃ entry ∈ document.content.part "namespaces", entry.2.Flawed ∨ entry.2.Nests Namespace.deepest

/-! ## Results that report -/

/-- If there is an error it has a message, unless there is a flaw. -/
def Reports {α : Type} (flaw : Prop) (result : Except LoadError α) : Prop :=
  ∀ e, result = .error e → e.message?.isSome ∨ flaw

namespace Reports

variable {α β : Type} {flaw other : Prop} {x : Except LoadError α}

theorem ok {a : α} : Reports flaw (.ok a : Except LoadError α) := fun _ h => nomatch h

theorem error {e : LoadError} (h : e.message?.isSome) : Reports flaw (.error e : Except LoadError α) := by
  intro e' he
  cases he
  exact .inl h

theorem flawed (h : flaw) : Reports flaw x := fun _ _ => .inr h

theorem imp (h : Reports flaw x) (himp : flaw → other) : Reports other x :=
  fun e he => (h e he).imp_right himp

theorem bind {f : α → Except LoadError β} (hx : Reports flaw x) (hf : ∀ a, x = .ok a → Reports flaw (f a)) :
    Reports flaw (x >>= f) := by
  intro e he
  rcases bind_eq_error_iff.1 he with he | ⟨a, ha, he⟩
  · exact hx e he
  · exact hf a ha e he

theorem mapM {f : β → Except LoadError α} {items : List β} (h : ∀ item ∈ items, Reports flaw (f item)) :
    Reports flaw (items.mapM f) := by
  induction items with
  | nil => exact ok
  | cons item rest ih =>
    rw [List.mapM_cons]
    refine (h item List.mem_cons_self).bind fun _ _ => ?_
    exact (ih fun other hother => h other (List.mem_cons_of_mem _ hother)).bind fun _ _ => ok

theorem foldlM {f : α → β → Except LoadError α} {items : List β}
    (h : ∀ item ∈ items, ∀ a, Reports flaw (f a item)) : ∀ a, Reports flaw (items.foldlM f a) := by
  induction items with
  | nil => exact fun _ => ok
  | cons item rest ih =>
    intro a
    rw [List.foldlM_cons]
    refine (h item List.mem_cons_self a).bind fun b _ => ?_
    exact ih (fun other hother => h other (List.mem_cons_of_mem _ hother)) b

end Reports

/-! ## Values, fields and types -/

section

variable {flaw : Prop} {label source : String}

theorem reports_entries (v : Value) : Reports flaw (v.entries label source) := by
  unfold Value.entries
  split
  · exact .ok
  · exact .error rfl

theorem reports_entriesOrNone (v : Value) : Reports flaw (v.entriesOrNone label source) := by
  unfold Value.entriesOrNone
  split
  · exact .ok
  · exact reports_entries v

theorem reports_nonEmptyText (v : Value) : Reports flaw (v.nonEmptyText label source) := by
  unfold Value.nonEmptyText
  split
  · dsimp only
    split
    · exact .error rfl
    · exact .ok
  · exact .error rfl

theorem reports_label (key : Scalar) : Reports (key.label? = none) (key.label source) := by
  unfold Scalar.label
  cases key.label? with
  | none => exact .flawed rfl
  | some name => exact .ok

namespace Field

theorem reports_parseId {name : String} (v : Value) : Reports flaw (parseId label name source v) := by
  unfold parseId
  split
  · exact .ok
  · exact .ok
  · exact .error rfl

theorem reports_parseRule {name : String} (v : Value) :
    Reports v.IsCollection (parseRule label name source v) := by
  unfold parseRule
  split
  · exact .ok
  · split
    · exact .ok
    · exact .error rfl
  · rename_i mark items h
    exact .flawed (.inl ⟨mark, items, h⟩)
  · rename_i mark entries h
    exact .flawed (.inr ⟨mark, entries, h⟩)
  · exact .error rfl

theorem reports_parse (v : Value) : Reports (v.content.field "rule").IsCollection (parse label source v) := by
  unfold parse
  refine (reports_entries v).bind fun content hcontent => ?_
  rw [Value.content_of_entries hcontent]
  refine (reports_nonEmptyText _).bind fun name _ => ?_
  refine (reports_nonEmptyText _).bind fun typeName _ => ?_
  refine (reports_parseId _).bind fun id _ => ?_
  refine (reports_parseRule _).bind fun rule _ => ?_
  exact (reports_entriesOrNone _).bind fun options _ => .ok

end Field

namespace TypeDecl

theorem reports_parseValues (entries : Mapping) : ∀ acc,
    Reports (Mapping.Nameless entries) (parseValues label source acc entries) := by
  induction entries with
  | nil => exact fun _ => .ok
  | cons entry rest ih =>
    intro acc
    obtain ⟨key, v⟩ := entry
    rw [parseValues]
    refine ((reports_label key).imp fun hkey => ⟨_, List.mem_cons_self, hkey⟩).bind fun name _ => ?_
    split
    · exact (ih _).imp List.exists_mem_cons_of_exists
    · exact .error rfl

theorem reports_parse {name owner : String} (v : Value) : Reports v.FlawedType (parse name owner source v) := by
  unfold parse
  refine (reports_entriesOrNone v).bind fun content hcontent => ?_
  obtain rfl := Value.content_of_entriesOrNone hcontent
  refine (reports_entriesOrNone _).bind fun options _ => ?_
  dsimp only [bind, Except.bind]
  split
  · exact .error rfl
  · split
    · refine (reports_entries _).bind fun entries hentries => ?_
      rw [← Value.content_of_entries hentries]
      exact ((reports_parseValues _ _).imp .inl).bind fun values _ => .ok
    · split
      · exact .error rfl
      · rename_i items hitems
        have hfields : ∀ item ∈ items, Reports v.FlawedType (Field.parse s!"{owner}.{name}" source item) :=
          fun item hitem => (Field.reports_parse item).imp fun hrule => .inr ⟨items, hitems, item, hitem, hrule⟩
        refine (Reports.mapM hfields).bind fun fields _ => ?_
        split
        · exact .error rfl
        · exact .ok

end TypeDecl

/-! ## Namespaces -/

namespace Namespace

theorem reports_addTypes {owner : String} (content : Mapping) : ∀ ns,
    Reports (content.Nameless ∨ ∃ entry ∈ content, entry.2.FlawedType) (addTypes source ns owner content) := by
  intro ns
  rw [addTypes_eq_foldlM]
  refine Reports.foldlM (fun entry hentry ns => ?_) ns
  obtain ⟨key, definition⟩ := entry
  rw [addTypes_singleton]
  refine ((reports_label key).imp fun hkey => .inl ⟨_, hentry, hkey⟩).bind fun name _ => ?_
  split
  · exact .error rfl
  · exact ((TypeDecl.reports_parse definition).imp fun h => .inr ⟨_, hentry, h⟩).bind fun t _ => .ok

theorem reports_mergeOwn {fullName : String} (ns : Namespace) (content : Mapping) :
    Reports ((content.part "types").Nameless ∨ ∃ entry ∈ content.part "types", entry.2.FlawedType)
      (mergeOwn source ns fullName content) := by
  unfold mergeOwn
  refine (reports_entriesOrNone _).bind fun options _ => ?_
  refine (reports_entriesOrNone _).bind fun types htypes => ?_
  rw [Mapping.part, Value.content_of_entriesOrNone htypes]
  exact reports_addTypes types _

theorem reports_mergeChild {fullName : String} (ns : Namespace) {key : Scalar}
    {merging : String → Namespace → Except LoadError Namespace}
    (h : ∀ childName start, Reports flaw (merging childName start)) :
    Reports (key.label? = none ∨ flaw) (mergeChild source fullName ns key merging) := by
  unfold mergeChild
  refine ((reports_label key).imp .inl).bind fun name _ => ?_
  dsimp only
  split
  · exact .error rfl
  · exact ((h _ _).imp .inr).bind fun new _ => .ok

theorem reports_mergeEach {P : Value → Prop} {merging : Merging} {fullName : String} {entries : Mapping}
    (h : ∀ entry ∈ entries, ∀ childName start, Reports (P entry.2) (merging childName start entry.2))
    (ns : Namespace) :
    Reports (entries.Nameless ∨ ∃ entry ∈ entries, P entry.2) (mergeEach merging source fullName ns entries) := by
  refine Reports.foldlM (fun entry hentry ns => ?_) ns
  exact (reports_mergeChild ns (h entry hentry)).imp
    (Or.imp (fun hkey => ⟨entry, hentry, hkey⟩) fun hbad => ⟨entry, hentry, hbad⟩)

/-- A way of merging that reports whatever is not a flaw, and goes through as many knots at least. -/
structure Merging.Reporting (n : Nat) (merging : Merging) : Prop where
  reports : ∀ fullName ns v, Reports (v.Flawed ∨ v.Nests n) (merging fullName ns v)
  knot : ∀ fullName ns mark body, Reports ((Value.knot mark body).Flawed ∨ (Value.knot mark body).Nests (n + 1))
    (merging fullName ns (.knot mark body))

/-- Some nested namespace has a flaw, or leads through knots, together with the one that its section may be. -/
def FlawedBelow (n : Nat) (content : Mapping) : Prop :=
  (content.part "namespaces").Nameless ∨ ∃ entry ∈ content.part "namespaces",
    entry.2.Flawed ∨ entry.2.Nests (n + 1) ∨
      entry.2.Nests n ∧ ∃ mark body, content.field "namespaces" = .knot mark body

mutual

theorem reports_mergeWith {n : Nat} {beyond : Merging} (hbeyond : beyond.Reporting n) {fullName : String}
    (ns : Namespace) (v : Value) :
    Reports (v.Flawed ∨ v.Nests (n + 1)) (mergeWith beyond source fullName ns v) := by
  match v with
  | .mapping mark content =>
    rw [mergeWith]
    refine ((reports_mergeOwn ns content).imp ?_).bind fun own _ =>
      (reports_mergeSection hbeyond own content).imp ?_
    · rintro (hnameless | ⟨⟨key, definition⟩, hentry, hflawed⟩)
      · exact .inl ⟨_, _, _, .space, .inl hnameless⟩
      · obtain ⟨number, hnumber⟩ := List.mem_iff_getElem?.1 hentry
        exact .inl ⟨_, _, _, .type hnumber, hflawed⟩
    · rintro (hnameless | ⟨⟨key, v⟩, hentry, hflawed | hnests | ⟨hnests, inner, body, hknot⟩⟩)
      · exact .inl ⟨_, _, _, .space, .inr hnameless⟩
      · obtain ⟨place, keys, d, hdeclares, hflawed⟩ := hflawed
        obtain ⟨number, hnumber⟩ := List.mem_iff_getElem?.1 hentry
        exact .inl ⟨_, _, _, .inside hnumber hdeclares, hflawed⟩
      · exact .inr (.inside hentry hnests)
      · exact .inr (.behind hknot hentry hnests)
  | .knot mark body =>
    rw [mergeWith]
    exact hbeyond.knot fullName ns mark body
  | .scalar _ | .list _ _ | .set _ _ | .again _ =>
    simp only [mergeWith]
    split
    · exact .ok
    · exact .error rfl

theorem reports_mergeSection {n : Nat} {beyond : Merging} (hbeyond : beyond.Reporting n) {fullName : String}
    (ns : Namespace) (content : List (Scalar × Value)) :
    Reports (FlawedBelow n content) (mergeSection beyond source fullName ns content) := by
  match content with
  | [] => exact .ok
  | (key, v) :: rest =>
    by_cases hkey : key.same (.text "namespaces") = true
    · have hfield : Mapping.field "namespaces" ((key, v) :: rest) = v := by
        simp [Mapping.field, Mapping.get?, hkey]
      match v with
      | .mapping mark nested =>
        simp only [mergeSection, hkey, if_true, mergeChildren_eq_mergeEach]
        refine (reports_mergeEach (P := fun v => v.Flawed ∨ v.Nests (n + 1))
          (reports_mergeChildren hbeyond nested) ns).imp ?_
        rw [FlawedBelow, Mapping.part, hfield]
        exact Or.imp_right fun ⟨entry, hentry, hbad⟩ => ⟨entry, hentry, hbad.imp_right .inl⟩
      | .knot mark body =>
        simp only [mergeSection, hkey, if_true]
        refine (reports_entries _).bind fun nested hnested => ?_
        refine (reports_mergeEach (P := fun v => v.Flawed ∨ v.Nests n)
          (fun entry _ childName start => hbeyond.reports childName start entry.2) ns).imp ?_
        rw [FlawedBelow, Mapping.part, hfield, Value.content_of_entries hnested]
        exact Or.imp_right fun ⟨entry, hentry, hbad⟩ =>
          ⟨entry, hentry, hbad.imp_right fun hnests => .inr ⟨hnests, mark, body, rfl⟩⟩
      | .scalar _ | .list _ _ | .set _ _ | .again _ =>
        simp only [mergeSection, hkey, if_true]
        split
        · exact .ok
        · exact .error rfl
    · have hkey : key.same (.text "namespaces") = false := by simpa using hkey
      have hfield : Mapping.field "namespaces" ((key, v) :: rest) = Mapping.field "namespaces" rest := by
        simp [Mapping.field, Mapping.get?, hkey]
      rw [mergeSection_of_not_same hkey]
      refine (reports_mergeSection hbeyond ns rest).imp ?_
      simp only [FlawedBelow, Mapping.part, hfield, imp_self]

theorem reports_mergeChildren {n : Nat} {beyond : Merging} (hbeyond : beyond.Reporting n)
    (entries : List (Scalar × Value)) : ∀ entry ∈ entries, ∀ childName start,
      Reports (entry.2.Flawed ∨ entry.2.Nests (n + 1)) (mergeWith beyond source childName start entry.2) := by
  match entries with
  | [] => exact fun _ h => nomatch h
  | (key, v) :: rest =>
    intro entry hentry childName start
    rcases List.mem_cons.1 hentry with rfl | hentry
    · exact reports_mergeWith hbeyond start v
    · exact reports_mergeChildren hbeyond rest entry hentry childName start

end

theorem flawed_of_unrolled {v : Value} (h : v.unrolled.Flawed) : v.Flawed := by
  obtain ⟨place, keys, d, hdeclares, hflawed⟩ := h
  cases v with
  | knot mark body => exact ⟨place, keys, d, .knot hdeclares, hflawed⟩
  | _ => exact ⟨place, keys, d, hdeclares, hflawed⟩

/-- The recursion may go on behind as many knots as it has left. -/
theorem mergeUpTo_reporting (source : String) (n : Nat) : (mergeUpTo source n).Reporting n := by
  induction n with
  | zero => exact ⟨fun _ _ _ => .flawed (.inr .here), fun _ _ _ _ => .flawed (.inr (.knot .here))⟩
  | succ n ih =>
    constructor
    · intro fullName ns v
      refine (reports_mergeWith ih ns v.unrolled).imp (Or.imp flawed_of_unrolled fun hnests => ?_)
      cases v with
      | knot mark body => exact hnests.knot.of_succ
      | _ => exact hnests
    · intro fullName ns mark body
      exact (reports_mergeWith ih ns _).imp (Or.imp flawed_of_unrolled .knot)

end Namespace

/-! ## Documents -/

namespace Schema

theorem reports_mergeNamespaces (entries : Mapping) : ∀ schema : Schema,
    Reports (entries.Nameless ∨ ∃ entry ∈ entries, entry.2.Flawed ∨ entry.2.Nests Namespace.deepest)
      (schema.mergeNamespaces source entries) := by
  induction entries with
  | nil => exact fun _ => .ok
  | cons entry rest ih =>
    intro schema
    obtain ⟨key, v⟩ := entry
    rw [mergeNamespaces]
    refine ((reports_label key).imp fun hkey => .inl ⟨_, List.mem_cons_self, hkey⟩).bind fun name _ => ?_
    have hmerge := (Namespace.mergeUpTo_reporting source Namespace.deepest).reports name
      ((schema.continued? key).getD (Namespace.empty name name)) v
    refine (hmerge.imp fun hbad => .inr ⟨_, List.mem_cons_self, hbad⟩).bind fun ns _ => ?_
    exact (ih _).imp (Or.imp List.exists_mem_cons_of_exists List.exists_mem_cons_of_exists)

theorem reports_mergeDocument (schema : Schema) (document : SchemaDocument) :
    Reports document.Flawed (schema.mergeDocument document) := by
  unfold mergeDocument
  dsimp only
  split
  · exact .ok
  · split
    · rename_i mark entries hentries
      rw [SchemaDocument.Flawed, Mapping.part, Value.content_of_unrolled hentries]
      exact reports_mergeNamespaces entries schema
    · exact .error rfl

theorem reports_mergeAll (documents : List SchemaDocument) : ∀ schema : Schema,
    Reports (∃ document ∈ documents, document.Flawed) (schema.mergeAll documents) := by
  induction documents with
  | nil => exact fun _ => .ok
  | cons document rest ih =>
    intro schema
    rw [mergeAll]
    refine ((reports_mergeDocument schema document).imp fun h => ⟨_, List.mem_cons_self, h⟩).bind fun merged _ => ?_
    exact (ih merged).imp List.exists_mem_cons_of_exists

theorem reports_ofDocuments (documents : List SchemaDocument) :
    Reports (∃ document ∈ documents, document.Flawed) (ofDocuments documents) := by
  unfold ofDocuments
  refine (reports_mergeAll documents _).bind fun merged _ => ?_
  cases hfirst : merged.firstUnresolvable? with
  | none =>
    rw [resolve, hfirst]
    exact .ok
  | some first =>
    obtain ⟨found, -, rfl⟩ := Option.map_eq_some_iff.1 hfirst
    rw [resolve, hfirst]
    exact .error rfl

end Schema

end

end SchemaClosure
