import SchemaClosure.Proofs.Schema.Layout

/-!
# What a value declares

What stands in the declaration of a namespace, without merging anything: the namespaces and types below it,
each at its place and under the chain of keys that leads there (`Value.Declares`). A place is the numbers of
the entries on the way, so that two declarations are told apart even when their keys give the same names. A
list of statements records a value when it has one for each of its declarations and no others
(`Value.Records`).
-/

namespace SchemaClosure

/-! ## The parts of a declaration -/

/-- The entries of the mapping that a value is; any other value has none. -/
def Value.content (v : Value) : Mapping :=
  match v.unrolled with
  | .mapping _ entries => entries
  | _ => []

/-- The entries of the mapping under a name. -/
def Mapping.part (name : String) (m : Mapping) : Mapping := (m.field name).content

namespace Value

theorem content_of_unrolled {v : Value} {mark : Option Mark} {entries : Mapping}
    (h : v.unrolled = .mapping mark entries) : v.content = entries := by
  rw [content, h]

theorem isVoid_tie (mark : Mark) (whole : Value) : ∀ {v : Value}, v.isVoid = true →
    (tie mark whole v).isVoid = true
  | .scalar _, h | .set _ _, h => h
  | .list _ [], _ | .mapping _ [], _ => rfl
  | .knot inner body, h => by
    have hbody : body.isVoid = true := h
    rw [tie, isVoid]
    split
    · exact hbody
    · exact isVoid_tie mark whole hbody

theorem isVoid_unrolled {v : Value} (h : v.isVoid = true) : v.unrolled.isVoid = true := by
  cases v with
  | knot mark body => exact isVoid_tie mark _ h
  | _ => exact h

/-- What stands for nothing has no entries. -/
theorem content_of_isVoid {v : Value} (h : v.isVoid = true) : v.content = [] := by
  have hunrolled := isVoid_unrolled h
  unfold content
  split
  · rename_i heq
    rw [heq] at hunrolled
    exact List.isEmpty_iff.1 hunrolled
  · rfl

theorem content_of_entries {label source : String} {v : Value} {entries : Mapping}
    (h : v.entries label source = .ok entries) : v.content = entries := by
  unfold Value.entries at h
  split at h
  · rename_i heq
    cases h
    exact content_of_unrolled heq
  · cases h

theorem content_of_entriesOrNone {label source : String} {v : Value} {entries : Mapping}
    (h : v.entriesOrNone label source = .ok entries) : v.content = entries := by
  unfold entriesOrNone at h
  split at h
  · rename_i hvoid
    cases h
    exact content_of_isVoid hvoid
  · exact content_of_entries h

end Value

/-! ## Declarations -/

/-- What is declared at a place: a namespace with the entries of its declaration, or a type under a key. -/
inductive Declaration where
  | space (content : Mapping)
  | type (key : Scalar) (definition : Value)

/-- What is declared in the declaration of a namespace: at which place, and below which chain of keys. -/
inductive Value.Declares : Value → List Nat → List Scalar → Declaration → Prop
  | space {mark : Option Mark} {content : Mapping} :
    Value.Declares (.mapping mark content) [] [] (.space content)
  | nothing {v : Value} : v.isVoid = true → Value.Declares v [] [] (.space [])
  | type {mark : Option Mark} {content : Mapping} {number : Nat} {key : Scalar} {definition : Value} :
    (content.part "types")[number]? = some (key, definition) →
    Value.Declares (.mapping mark content) [number] [] (.type key definition)
  | inside {mark : Option Mark} {content : Mapping} {number : Nat} {key : Scalar} {v : Value}
      {place : List Nat} {keys : List Scalar} {d : Declaration} :
    (content.part "namespaces")[number]? = some (key, v) → Value.Declares v place keys d →
    Value.Declares (.mapping mark content) (number :: place) (key :: keys) d
  | knot {mark : Mark} {body : Value} {place : List Nat} {keys : List Scalar} {d : Declaration} :
    Value.Declares (Value.knot mark body).unrolled place keys d →
    Value.Declares (.knot mark body) place keys d

/-- The keys give the names. -/
def Scalar.Label (keys : List Scalar) (names : List String) : Prop :=
  List.Forall₂ (fun key name => key.label? = some name) keys names

/-- What a declaration puts at which path. -/
inductive Declaration.Gives : List Scalar → Declaration → List String → Entity → Prop
  | space {keys : List Scalar} {path : List String} {content : Mapping} :
    Scalar.Label keys path → Declaration.Gives keys (.space content) path (.space (content.part "options"))
  | type {keys : List Scalar} {path : List String} {key : Scalar} {name owner source : String}
      {definition : Value} {t : TypeDecl} :
    Scalar.Label keys path → key.label? = some name → TypeDecl.parse name owner source definition = .ok t →
    Declaration.Gives keys (.type key definition) (path ++ [name]) (.type t)

theorem Declaration.gives_space_iff {content : Mapping} {keys : List Scalar} {path : List String} {e : Entity} :
    (Declaration.space content).Gives keys path e ↔
      Scalar.Label keys path ∧ e = .space (content.part "options") := by
  constructor
  · intro h
    cases h with
    | space hkeys => exact ⟨hkeys, rfl⟩
  · rintro ⟨hkeys, rfl⟩
    exact .space hkeys

theorem Declaration.gives_type_iff {key : Scalar} {definition : Value} {keys : List Scalar}
    {whole : List String} {e : Entity} : (Declaration.type key definition).Gives keys whole e ↔
      ∃ path name owner source t, Scalar.Label keys path ∧ key.label? = some name ∧
        TypeDecl.parse name owner source definition = .ok t ∧ whole = path ++ [name] ∧ e = .type t := by
  constructor
  · intro h
    cases h with
    | type hkeys hname hparse => exact ⟨_, _, _, _, _, hkeys, hname, hparse, rfl, rfl⟩
  · rintro ⟨path, name, owner, source, t, hkeys, hname, hparse, rfl, rfl⟩
    exact .type hkeys hname hparse

/-- Only the declaration of a type gives a type. -/
theorem Declaration.Gives.eq_type {d : Declaration} {keys : List Scalar} {whole : List String} {t : TypeDecl}
    (h : d.Gives keys whole (.type t)) : ∃ key definition, d = .type key definition := by
  cases h
  exact ⟨_, _, rfl⟩

/-- Only the declaration of a namespace gives a namespace. -/
theorem Declaration.Gives.eq_space {d : Declaration} {keys : List Scalar} {path : List String}
    {options : Mapping} (h : d.Gives keys path (.space options)) : ∃ content, d = .space content := by
  cases h
  exact ⟨_, rfl⟩

theorem Declaration.Gives.under {keys : List Scalar} {d : Declaration} {path : List String} {e : Entity}
    (h : d.Gives keys path e) {key : Scalar} {name : String} (hkey : key.label? = some name) :
    d.Gives (key :: keys) (name :: path) e := by
  cases h with
  | space hkeys => exact .space (.cons hkey hkeys)
  | type hkeys hname hparse => exact .type (.cons hkey hkeys) hname hparse

/-- The statements are those that a value makes, one for each declaration in it. The first is about the
namespace that it declares. -/
structure Value.Records (v : Value) (statements : List Statement) : Prop where
  first : ∃ options rest, statements = ⟨[], [], .space options⟩ :: rest
  declared : ∀ s ∈ statements, ∃ keys d, v.Declares s.place keys d ∧ d.Gives keys s.path s.entity
  stated : ∀ place keys d, v.Declares place keys d →
    ∃ s ∈ statements, s.place = place ∧ d.Gives keys s.path s.entity

/-! ## Statements of entries -/

/-- The statements of entries one after the other, the entries being numbered from a number on. -/
inductive Grouped (P : Nat → Scalar × Value → List Statement → Prop) :
    Nat → List (Scalar × Value) → List Statement → Prop
  | nil {number : Nat} : Grouped P number [] []
  | cons {number : Nat} {entry : Scalar × Value} {rest : List (Scalar × Value)}
      {group statements : List Statement} :
    P number entry group → Grouped P (number + 1) rest statements →
    Grouped P number (entry :: rest) (group ++ statements)

namespace Grouped

variable {P : Nat → Scalar × Value → List Statement → Prop} {entries : List (Scalar × Value)}
  {statements : List Statement} {start : Nat}

theorem exists_of_mem (h : Grouped P start entries statements) {s : Statement} (hs : s ∈ statements) :
    ∃ number entry group, entries[number]? = some entry ∧ P (start + number) entry group ∧ s ∈ group := by
  induction h with
  | nil => cases hs
  | @cons start entry rest group statements hgroup _ ih =>
    rcases List.mem_append.1 hs with hs | hs
    · exact ⟨0, entry, group, rfl, hgroup, hs⟩
    · obtain ⟨number, entry, group, hentry, hgroup, hs⟩ := ih hs
      exact ⟨number + 1, entry, group, hentry, by rwa [Nat.add_right_comm] at hgroup, hs⟩

theorem exists_group (h : Grouped P start entries statements) : ∀ {number : Nat} {entry : Scalar × Value},
    entries[number]? = some entry → ∃ group, P (start + number) entry group ∧ group ⊆ statements := by
  induction h with
  | nil =>
    intro number entry hentry
    cases hentry
  | @cons start first rest group statements hgroup _ ih =>
    intro number entry hentry
    cases number with
    | zero =>
      cases hentry
      exact ⟨group, hgroup, List.subset_append_left _ _⟩
    | succ number =>
      obtain ⟨inner, hinner, hsub⟩ := ih hentry
      rw [Nat.add_right_comm] at hinner
      exact ⟨inner, hinner, List.subset_append_of_subset_right _ hsub⟩

end Grouped

/-- The statement of a type under its key. -/
def StatesType (number : Nat) (entry : Scalar × Value) (group : List Statement) : Prop :=
  ∃ name owner source t, entry.1.label? = some name ∧ TypeDecl.parse name owner source entry.2 = .ok t ∧
    group = [⟨[number], [name], .type t⟩]

/-- The statements of a namespace under its key. -/
def StatesSpace (number : Nat) (entry : Scalar × Value) (group : List Statement) : Prop :=
  ∃ name own, entry.1.label? = some name ∧ entry.2.Records own ∧ group = own.map (Statement.under number name)

namespace Value

theorem records_mapping {mark : Option Mark} {content : Mapping} {types nested : List Statement}
    (htypes : Grouped StatesType 0 (content.part "types") types)
    (hnested : Grouped StatesSpace 0 (content.part "namespaces") nested) :
    (Value.mapping mark content).Records
      (⟨[], [], .space (content.part "options")⟩ :: types ++ nested) := by
  refine ⟨⟨_, _, rfl⟩, ?_, ?_⟩
  · intro s hs
    rcases List.mem_append.1 hs with hs | hs
    · rcases List.mem_cons.1 hs with rfl | hs
      · exact ⟨[], _, .space, .space .nil⟩
      · obtain ⟨number, ⟨key, definition⟩, group, hentry, hgroup, hs⟩ := htypes.exists_of_mem hs
        obtain ⟨name, owner, source, t, hname, hparse, rfl⟩ := hgroup
        obtain rfl := List.mem_singleton.1 hs
        rw [Nat.zero_add]
        exact ⟨[], _, .type hentry,
          Declaration.gives_type_iff.2 ⟨[], name, owner, source, t, .nil, hname, hparse, rfl, rfl⟩⟩
    · obtain ⟨number, ⟨key, v⟩, group, hentry, hgroup, hs⟩ := hnested.exists_of_mem hs
      obtain ⟨name, own, hname, hown, rfl⟩ := hgroup
      obtain ⟨inner, hinner, rfl⟩ := List.mem_map.1 hs
      obtain ⟨keys, d, hdeclares, hgives⟩ := hown.declared inner hinner
      rw [Nat.zero_add]
      exact ⟨key :: keys, d, .inside hentry hdeclares, hgives.under hname⟩
  · intro place keys d h
    cases h with
    | space => exact ⟨_, List.mem_cons_self, rfl, .space .nil⟩
    | nothing hvoid =>
      obtain rfl : content = [] := List.isEmpty_iff.1 hvoid
      exact ⟨_, List.mem_cons_self, rfl, .space .nil⟩
    | type hentry =>
      obtain ⟨group, ⟨name, owner, source, t, hname, hparse, rfl⟩, hsub⟩ := htypes.exists_group hentry
      rw [Nat.zero_add] at hsub
      exact ⟨_, List.mem_append_left _ (List.mem_cons_of_mem _ (hsub List.mem_cons_self)), rfl,
        Declaration.gives_type_iff.2 ⟨[], name, owner, source, t, .nil, hname, hparse, rfl, rfl⟩⟩
    | inside hentry hdeclares =>
      obtain ⟨group, ⟨name, own, hname, hown, rfl⟩, hsub⟩ := hnested.exists_group hentry
      obtain ⟨s, hs, rfl, hgives⟩ := hown.stated _ _ _ hdeclares
      rw [Nat.zero_add] at hsub
      exact ⟨_, List.mem_append_right _ (hsub (List.mem_map_of_mem hs)), rfl, hgives.under hname⟩

theorem records_knot {mark : Mark} {body : Value} {statements : List Statement}
    (h : (Value.knot mark body).unrolled.Records statements) :
    (Value.knot mark body).Records statements := by
  refine ⟨h.first, ?_, ?_⟩
  · intro s hs
    obtain ⟨keys, d, hdeclares, hgives⟩ := h.declared s hs
    exact ⟨keys, d, .knot hdeclares, hgives⟩
  · intro place keys d hdeclares
    cases hdeclares with
    | nothing hvoid => exact h.stated _ _ _ (.nothing (isVoid_unrolled hvoid))
    | knot hdeclares => exact h.stated _ _ _ hdeclares

/-- What stands for nothing declares its namespace, and nothing else. -/
theorem records_nothing {v : Value} (hvoid : v.isVoid = true)
    (hmapping : ∀ mark content, v ≠ .mapping mark content) (hknot : ∀ mark body, v ≠ .knot mark body) :
    v.Records [⟨[], [], .space []⟩] := by
  refine ⟨⟨_, _, rfl⟩, ?_, ?_⟩
  · intro s hs
    obtain rfl := List.mem_singleton.1 hs
    exact ⟨[], _, .nothing hvoid, .space .nil⟩
  · intro place keys d h
    cases h with
    | nothing _ => exact ⟨_, List.mem_cons_self, rfl, .space .nil⟩
    | space | type _ | inside _ _ => exact absurd rfl (hmapping _ _)
    | knot _ => exact absurd rfl (hknot _ _)

end Value

end SchemaClosure
