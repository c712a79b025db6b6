import SchemaClosure.Proofs.Schema.Declared

/-!
# What merging a declaration states

Merging a declaration does the same wherever it is merged (`Uniform`): it fails on every namespace, or it adds
the statements that record the declaration, and fails only where they clash with what is there. This is shown
for each step of the loader and put together along the recursion through the value.

Main theorem `merge_uniform`.
-/

namespace SchemaClosure

namespace Namespace

/-! ## Uniform steps -/

/-- A step that fails on every sound namespace of a full name, or adds the same statements to all of them. -/
def Uniform (fullName : String) (P : List Statement → Prop)
    (step : Namespace → Except LoadError Namespace) : Prop :=
  (∀ ns, ns.AllSound → ns.fullName = fullName → ∃ e, step ns = .error e) ∨
  ∃ statements, P statements ∧ ∀ ns, ns.AllSound → ns.fullName = fullName →
    Adds Namespace.look? ns.look? statements (step ns)

namespace Uniform

variable {fullName : String} {P Q : List Statement → Prop} {f g : Namespace → Except LoadError Namespace}

theorem of_error (h : ∀ ns, ∃ e, f ns = .error e) : Uniform fullName P f :=
  .inl fun ns _ _ => h ns

theorem imp (h : Uniform fullName P f) (hPQ : ∀ statements, P statements → Q statements) :
    Uniform fullName Q f :=
  h.imp_right fun ⟨statements, hP, hadds⟩ => ⟨statements, hPQ statements hP, hadds⟩

/-- A step that makes no statements. -/
theorem pure (hP : P []) : Uniform fullName P .ok :=
  .inr ⟨[], hP, fun _ _ _ => .of_ok fun _ => Entity.settle_nil _⟩

theorem bind (hf : Uniform fullName P f)
    (hgrows : ∀ ns ns', f ns = .ok ns' → ns.fullName = fullName → ns.Grows ns')
    (hg : Uniform fullName Q g) :
    Uniform fullName (fun all => ∃ a b, P a ∧ Q b ∧ all = a ++ b) fun ns => f ns >>= g := by
  have hnext : ∀ ns ns', ns.AllSound → ns.fullName = fullName → f ns = .ok ns' →
      ns'.AllSound ∧ ns'.fullName = fullName := by
    intro ns ns' hsound hfull hns'
    have h := hgrows ns ns' hns' hfull
    exact ⟨h.sound hsound, h.fullName.trans hfull⟩
  rcases hf with hf | ⟨a, ha, hf⟩
  · refine .inl fun ns hsound hfull => ?_
    obtain ⟨e, he⟩ := hf ns hsound hfull
    refine ⟨e, ?_⟩
    rw [bind_eq_error_iff]
    exact .inl he
  -- a second step that always fails is not always reached, but then the first has failed
  rcases hg with hg | ⟨b, hb, hg⟩
  · refine .inl fun ns hsound hfull => ?_
    cases hns' : f ns with
    | error e => exact ⟨e, bind_eq_error_iff.2 (.inl hns')⟩
    | ok ns' =>
      obtain ⟨hsound', hfull'⟩ := hnext ns ns' hsound hfull hns'
      obtain ⟨e, he⟩ := hg ns' hsound' hfull'
      exact ⟨e, bind_eq_error_iff.2 (.inr ⟨ns', hns', he⟩)⟩
  · refine .inr ⟨a ++ b, ⟨a, b, ha, hb, rfl⟩, fun ns hsound hfull => ?_⟩
    refine (hf ns hsound hfull).bind fun ns' hns' => ?_
    obtain ⟨hsound', hfull'⟩ := hnext ns ns' hsound hfull hns'
    exact hg ns' hsound' hfull'

/-- A step for each entry in turn. -/
theorem foldlM {P : Nat → Scalar × Value → List Statement → Prop}
    {step : Namespace → Scalar × Value → Except LoadError Namespace} {entries : List (Scalar × Value)}
    (hgrows : ∀ entry ns ns', step ns entry = .ok ns' → ns.fullName = fullName → ns.Grows ns') :
    ∀ {start : Nat}, (∀ entry ∈ entries, ∀ number, Uniform fullName (P number entry) (step · entry)) →
      Uniform fullName (Grouped P start entries) (entries.foldlM step ·) := by
  induction entries with
  | nil =>
    intro start _
    exact pure .nil
  | cons entry rest ih =>
    intro start h
    have hfirst := h entry List.mem_cons_self start
    have hrest : Uniform fullName (Grouped P (start + 1) rest) (rest.foldlM step ·) :=
      ih fun other hother => h other (List.mem_cons_of_mem _ hother)
    refine (hfirst.bind (hgrows entry) hrest).imp ?_
    rintro _ ⟨group, statements, hgroup, hstatements, rfl⟩
    exact .cons hgroup hstatements

end Uniform

/-! ## Options and types -/

theorem uniform_updateOptions (fullName : String) (options : Mapping) :
    Uniform fullName (· = [⟨[], [], .space options⟩])
      fun ns => .ok { ns with options := ns.options.update options } := by
  refine .inr ⟨_, rfl, fun ns _ _ => .of_ok fun path => ?_⟩
  cases path <;> rfl

theorem addTypes_singleton (source owner : String) (ns : Namespace) (key : Scalar) (definition : Value) :
    addTypes source ns owner [(key, definition)] = key.label source >>= fun name =>
      if (ns.child? name).isSome then .error (.duplicateType owner name source)
      else TypeDecl.parse name owner source definition >>= fun t => .ok (ns.add (.type t)) := rfl

theorem addTypes_eq_foldlM (source owner : String) (content : Mapping) : ∀ ns : Namespace,
    addTypes source ns owner content = content.foldlM (fun ns entry => addTypes source ns owner [entry]) ns := by
  induction content with
  | nil =>
    intro ns
    rfl
  | cons entry rest ih =>
    intro ns
    have hsplit : addTypes source ns owner (entry :: rest) =
        addTypes source ns owner [entry] >>= fun ns => addTypes source ns owner rest := by
      rw [addTypes_singleton, addTypes, bind_assoc]
      refine bind_congr fun name => ?_
      by_cases hchild : (ns.child? name).isSome
      · simp only [hchild, if_true]
        rfl
      · simp only [hchild, Bool.false_eq_true, if_false, bind_assoc]
        rfl
    rw [hsplit, List.foldlM_cons]
    exact bind_congr ih

/-- A type is added under its name when nothing stands there, and clashes with whatever does. -/
theorem addType_adds (ns : Namespace) (t : TypeDecl) (e : LoadError) (number : Nat) :
    Adds Namespace.look? ns.look? [⟨[number], [t.name], .type t⟩]
      (if (ns.child? t.name).isSome then .error e else .ok (ns.add (.type t))) := by
  cases hchild : ns.child? t.name with
  | some node =>
    rw [Option.isSome_some, if_pos rfl]
    refine .of_error [t.name] ?_
    cases node <;> simp [Statement.about_cons, hchild, Node.look?, Entity.settle_cons, Entity.declare]
  | none =>
    have htype : Adds (fun t => (Node.type t).look?) (fun _ => none) [⟨[], [], .type t⟩] (.ok t) := by
      refine .of_ok fun path => ?_
      cases path <;> rfl
    have hbelow : ∀ path, ns.look? (t.name :: path) = none := by
      intro path
      rw [look?_cons, hchild, Option.bind_none]
    rw [Option.isSome_none, if_neg Bool.false_ne_true]
    refine htype.graft hbelow (f := fun t => .ok (ns.add (.type t))) (fun u hu => ?_) number
    cases hu
    exact ⟨_, rfl, ns.look?_add (.type t)⟩

theorem addTypes_singleton_uniform (source owner fullName : String) (entry : Scalar × Value)
    (number : Nat) : Uniform fullName (StatesType number entry) (addTypes source · owner [entry]) := by
  obtain ⟨key, definition⟩ := entry
  cases hname : key.label? with
  | none =>
    refine .of_error fun ns => ⟨.labelTooLong source, ?_⟩
    simp [addTypes, Scalar.label, hname, bind, Except.bind]
  | some name =>
    have hstep : (addTypes source · owner [(key, definition)]) = fun ns : Namespace =>
        if (ns.child? name).isSome then .error (.duplicateType owner name source)
        else TypeDecl.parse name owner source definition >>= fun t => .ok (ns.add (.type t)) := by
      funext ns
      rw [addTypes_singleton, Scalar.label, hname]
      rfl
    rw [hstep]
    cases ht : TypeDecl.parse name owner source definition with
    | error e =>
      refine .of_error fun ns => ?_
      split <;> exact ⟨_, rfl⟩
    | ok t =>
      obtain rfl : t.name = name := (TypeDecl.canonical_of_parse ht).2.1
      refine .inr ⟨_, ⟨t.name, owner, source, t, hname, ht, rfl⟩, fun ns _ _ => ?_⟩
      exact addType_adds ns t (.duplicateType owner t.name source) number

theorem addTypes_uniform (source owner : String) (content : Mapping) :
    Uniform owner (Grouped StatesType 0 content) (addTypes source · owner content) := by
  simp only [addTypes_eq_foldlM source owner content]
  exact .foldlM (fun entry ns ns' h hfull => addTypes_grows h hfull) fun entry _ number =>
    addTypes_singleton_uniform source owner owner entry number

/-- The statements of a declaration about its own namespace and the types in it. -/
theorem mergeOwn_uniform (source fullName : String) (content : Mapping) :
    Uniform fullName (fun statements => ∃ types, Grouped StatesType 0 (content.part "types") types ∧
      statements = ⟨[], [], .space (content.part "options")⟩ :: types)
      (mergeOwn source · fullName content) := by
  cases hoptions : (content.field "options").entriesOrNone s!"{fullName}.options" source with
  | error e =>
    refine .of_error fun ns => ⟨e, ?_⟩
    rw [mergeOwn, hoptions]
    rfl
  | ok options =>
    cases htypes : (content.field "types").entriesOrNone s!"{fullName}.types" source with
    | error e =>
      refine .of_error fun ns => ⟨e, ?_⟩
      rw [mergeOwn, hoptions, htypes]
      rfl
    | ok types =>
      have hstep : ∀ ns : Namespace, mergeOwn source ns fullName content =
          .ok { ns with options := ns.options.update options } >>= fun ns =>
            addTypes source ns fullName types := by
        intro ns
        rw [mergeOwn, hoptions, htypes]
        rfl
      simp only [hstep]
      refine ((uniform_updateOptions fullName options).bind ?_
        (addTypes_uniform source fullName types)).imp ?_
      · intro ns ns' h _
        cases h
        exact ns.updateOptions_grows options
      · rintro _ ⟨_, statements, rfl, hstatements, rfl⟩
        obtain rfl := Value.content_of_entriesOrNone hoptions
        obtain rfl := Value.content_of_entriesOrNone htypes
        exact ⟨statements, hstatements, rfl⟩

/-! ## Nested namespaces -/

/-- A way of merging that records every declaration wherever it is merged. -/
def Merging.Additive (merging : Merging) : Prop :=
  ∀ fullName v, Uniform fullName v.Records (merging fullName · v)

/-- What a nested declaration adds to its namespace is added below its name. -/
theorem mergeChild_adds {merging : String → Namespace → Except LoadError Namespace}
    (hgrows : ∀ ⦃childName : String⦄ ⦃start start' : Namespace⦄, merging childName start = .ok start' →
      start.fullName = childName → start.Grows start')
    {source fullName name : String} {key : Scalar} (hname : key.label? = some name) {ns : Namespace}
    (hsound : ns.AllSound) (hfull : ns.fullName = fullName) {v : Value} {own : List Statement}
    (hown : v.Records own)
    (hadds : ∀ start : Namespace, start.AllSound → start.fullName = s!"{fullName}.{name}" →
      Adds Namespace.look? start.look? own (merging s!"{fullName}.{name}" start)) (number : Nat) :
    Adds Namespace.look? ns.look? (own.map (Statement.under number name))
      (mergeChild source fullName ns key merging) := by
  obtain ⟨hstart, hstartName, hstartFull⟩ := start_of_child? hsound hfull name
  have hbelow := hadds _ hstart hstartFull
  obtain ⟨options, rest, rfl⟩ := hown.first
  by_cases htype : ∃ t, ns.child? name = some (.type t)
  · obtain ⟨t, hchild⟩ := htype
    -- the namespace itself clashes with the type
    rw [mergeChild_of_type hname hchild]
    refine .of_error [name] ?_
    rw [Statement.about_under_cons, if_pos rfl, look?_cons, hchild, Statement.about_cons, if_pos rfl]
    rfl
  · have hnotType : ∀ t, ns.child? name ≠ some (.type t) := fun t ht => htype ⟨t, ht⟩
    have hput : ∀ new, merging s!"{fullName}.{name}"
        (((ns.child? name).bind Node.space?).getD (empty name s!"{fullName}.{name}")) = .ok new →
        ∃ b, (Except.ok (ns.add new.toNode) : Except LoadError Namespace) = .ok b ∧
          (∀ path, b.look? (name :: path) = new.look? path) ∧ b.look? [] = ns.look? [] ∧
          ∀ other path, other ≠ name → b.look? (other :: path) = ns.look? (other :: path) := by
      intro new hnew
      have hnewName : new.toNode.name = name := (hgrows hnew hstartFull).name.trans hstartName
      have hlook := ns.look?_add new.toNode
      rw [hnewName] at hlook
      exact ⟨_, rfl, hlook⟩
    rw [mergeChild_of_not_type hname hnotType]
    exact hbelow.graft_onto (look?_cons_of_not_type hnotType) hput number

theorem mergeChild_uniform {merging : String → Namespace → Except LoadError Namespace}
    (hgrows : ∀ ⦃childName : String⦄ ⦃start start' : Namespace⦄, merging childName start = .ok start' →
      start.fullName = childName → start.Grows start')
    {key : Scalar} {v : Value} (h : ∀ childName, Uniform childName v.Records (merging childName))
    (source fullName : String) (number : Nat) :
    Uniform fullName (StatesSpace number (key, v)) (mergeChild source fullName · key merging) := by
  cases hname : key.label? with
  | none =>
    refine .of_error fun ns => ⟨.labelTooLong source, ?_⟩
    simp [mergeChild, Scalar.label, hname, bind, Except.bind]
  | some name =>
    rcases h s!"{fullName}.{name}" with hfail | ⟨own, hown, hadds⟩
    · refine .inl fun ns hsound hfull => ?_
      obtain ⟨hstart, -, hstartFull⟩ := start_of_child? hsound hfull name
      obtain ⟨e, he⟩ := hfail _ hstart hstartFull
      by_cases htype : ∃ t, ns.child? name = some (.type t)
      · obtain ⟨t, hchild⟩ := htype
        exact ⟨_, mergeChild_of_type hname hchild⟩
      · refine ⟨e, (mergeChild_of_not_type hname fun t ht => htype ⟨t, ht⟩).trans ?_⟩
        exact bind_eq_error_iff.2 (.inl he)
    · refine .inr ⟨_, ⟨name, own, hname, hown, rfl⟩, fun ns hsound hfull => ?_⟩
      exact mergeChild_adds hgrows hname hsound hfull hown hadds number

theorem mergeEach_uniform {merging : Merging} (hgrowing : merging.Growing) {entries : Mapping}
    (h : ∀ entry ∈ entries, ∀ childName, Uniform childName entry.2.Records (merging childName · entry.2))
    (source fullName : String) :
    Uniform fullName (Grouped StatesSpace 0 entries) (mergeEach merging source fullName · entries) := by
  unfold mergeEach
  refine .foldlM ?_ ?_
  · exact fun entry ns ns' hns' hfull => mergeChild_grows (fun _ _ _ h hfull => hgrowing h hfull) hns' hfull
  · intro entry hentry number
    exact mergeChild_uniform (fun _ _ _ h hfull => hgrowing h hfull) (h entry hentry) source fullName number

theorem mergeChildren_eq_mergeEach (beyond : Merging) (source fullName : String)
    (entries : List (Scalar × Value)) : ∀ ns : Namespace,
    mergeChildren beyond source fullName ns entries =
      mergeEach (mergeWith beyond source) source fullName ns entries := by
  unfold mergeEach
  induction entries with
  | nil =>
    intro ns
    rfl
  | cons entry rest ih =>
    intro ns
    rw [List.foldlM_cons, mergeChildren]
    exact bind_congr ih

/-- A step that changes nothing or fails, whatever it is applied to. -/
theorem uniform_if {fullName : String} {P : List Statement → Prop} {b : Bool} {e : LoadError}
    (h : b = true → P []) : Uniform fullName P fun ns => if b then .ok ns else .error e := by
  cases b with
  | true => exact .pure (h rfl)
  | false => exact .of_error fun _ => ⟨e, rfl⟩

/-- What is no mapping changes nothing if it stands for nothing, and fails otherwise. -/
theorem uniform_nothing (v : Value) (hmapping : ∀ mark content, v ≠ .mapping mark content)
    (hknot : ∀ mark body, v ≠ .knot mark body) (fullName : String) (e : LoadError) :
    Uniform fullName v.Records fun ns => if v.isVoid then .ok ns else .error e := by
  cases hvoid : v.isVoid with
  | true =>
    refine .inr ⟨_, Value.records_nothing hvoid hmapping hknot, fun ns _ _ => .of_ok fun path => ?_⟩
    cases path <;> rfl
  | false => exact .of_error fun _ => ⟨e, rfl⟩

mutual

theorem mergeWith_uniform {beyond : Merging} (hgrowing : beyond.Growing) (hbeyond : beyond.Additive)
    (source fullName : String) (v : Value) :
    Uniform fullName v.Records (mergeWith beyond source fullName · v) := by
  match v with
  | .mapping mark content =>
    have hsection := mergeSection_uniform hgrowing hbeyond source fullName content
    refine ((mergeOwn_uniform source fullName content).bind (fun ns ns' h hfull => mergeOwn_grows h hfull)
      hsection).imp ?_
    rintro _ ⟨_, nested, ⟨types, htypes, rfl⟩, hnested, rfl⟩
    exact Value.records_mapping htypes hnested
  -- the recursion through the value ends at a knot, and `beyond` takes over there
  | .knot mark body => exact hbeyond fullName (.knot mark body)
  | .scalar _ | .list _ _ | .set _ _ | .again _ =>
    simp only [mergeWith]
    refine uniform_nothing _ ?_ ?_ fullName _ <;>
      exact fun _ _ h => by cases h

theorem mergeSection_uniform {beyond : Merging} (hgrowing : beyond.Growing) (hbeyond : beyond.Additive)
    (source fullName : String) (content : List (Scalar × Value)) :
    Uniform fullName (Grouped StatesSpace 0 (Mapping.part "namespaces" content))
      (mergeSection beyond source fullName · content) := by
  match content with
  | [] => exact .pure .nil
  | (key, v) :: rest =>
    by_cases hkey : key.same (.text "namespaces") = true
    · have hpart : Mapping.part "namespaces" ((key, v) :: rest) = v.content := by
        simp [Mapping.part, Mapping.field, Mapping.get?, hkey]
      rw [hpart]
      match v with
      | .mapping _ nested =>
        simp only [mergeSection, hkey, if_true, mergeChildren_eq_mergeEach]
        exact mergeEach_uniform (fun _ _ _ _ => mergeWith_grows hgrowing _)
          (mergeChildren_uniform hgrowing hbeyond source nested) source fullName
      | .knot mark body =>
        simp only [mergeSection, hkey, if_true]
        cases hentries : (Value.knot mark body).entries s!"{fullName}.namespaces" source with
        | error e => exact .of_error fun ns => ⟨e, rfl⟩
        | ok nested =>
          rw [Value.content_of_entries hentries]
          exact mergeEach_uniform hgrowing (fun entry _ childName => hbeyond childName entry.2) source
            fullName
      | .scalar _ | .list _ _ | .set _ _ | .again _ =>
        simp only [mergeSection, hkey, if_true]
        exact (uniform_if fun hvoid => Value.content_of_isVoid hvoid ▸ .nil)
    · have hkey : key.same (.text "namespaces") = false := by simpa using hkey
      have hpart : Mapping.part "namespaces" ((key, v) :: rest) = Mapping.part "namespaces" rest := by
        simp [Mapping.part, Mapping.field, Mapping.get?, hkey]
      rw [hpart]
      simp only [mergeSection_of_not_same hkey]
      exact mergeSection_uniform hgrowing hbeyond source fullName rest

theorem mergeChildren_uniform {beyond : Merging} (hgrowing : beyond.Growing) (hbeyond : beyond.Additive)
    (source : String) (entries : List (Scalar × Value)) :
    ∀ entry ∈ entries, ∀ childName,
      Uniform childName entry.2.Records (mergeWith beyond source childName · entry.2) := by
  match entries with
  | [] => exact fun _ h => nomatch h
  | (key, v) :: rest =>
    intro entry hentry childName
    rcases List.mem_cons.1 hentry with rfl | hentry
    · exact mergeWith_uniform hgrowing hbeyond source childName v
    · exact mergeChildren_uniform hgrowing hbeyond source rest entry hentry childName

end

theorem mergeUpTo_additive (source : String) (n : Nat) : (mergeUpTo source n).Additive := by
  induction n with
  | zero =>
    intro fullName v
    refine mergeWith_uniform (fun _ _ _ _ h => ?_) (fun _ _ => .of_error fun _ => ⟨_, rfl⟩) source fullName v
    cases h
  | succ n ih =>
    intro fullName v
    have h := mergeWith_uniform (mergeUpTo_growing source n) ih source fullName v.unrolled
    cases v with
    | knot mark body => exact h.imp fun _ => Value.records_knot
    | _ => exact h

/-- **Merging a declaration** fails wherever it is merged, or makes the statements that record it wherever
it is merged. -/
theorem merge_uniform (source fullName : String) (v : Value) :
    Uniform fullName v.Records (merge source fullName · v) :=
  mergeUpTo_additive source deepest fullName v

end Namespace

end SchemaClosure
