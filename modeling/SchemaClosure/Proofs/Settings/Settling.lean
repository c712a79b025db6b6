import SchemaClosure.Proofs.Schema.Declared
import SchemaClosure.Settings.Configuration

/-!
# What reading a part of a configuration comes to

Reading a value comes to the one thing that it describes, or to an error with a message if it describes nothing, or a
look-up of a file fails (`Settles`); a step that depends on another one settles what both describe (`Settles.bind`).
This is said of each kind of value in a configuration: sections, names, and texts that must or may be there.
-/

namespace SchemaClosure

/-! ## What reading comes to -/

/-- What reading something that may be described comes to: what is described, and nothing else is; an error with a
message, and nothing is described; or a look-up that fails. -/
inductive Settles {α : Type} (described : α → Prop) (fails : FileError → Prop) : Except SettingsError α → Prop
  | accepted {a : α} : described a → (∀ b, described b → b = a) → Settles described fails (.ok a)
  | rejected {e : SettingsError} : e.message?.isSome → (∀ a, ¬ described a) → Settles described fails (.error e)
  | unreachable {e : FileError} : fails e → Settles described fails (.error (.unreachable e))

namespace Settles

variable {α β : Type} {described : α → Prop} {fails : FileError → Prop} {x : Except SettingsError α}

theorem congr {other : α → Prop} (hx : Settles described fails x) (h : ∀ a, described a ↔ other a) :
    Settles other fails x := by
  have heq : described = other := funext fun a => propext (h a)
  exact heq ▸ hx

theorem pure (a : α) : Settles (· = a) fails (.ok a) := .accepted rfl fun _ h => h

/-- What is read first is settled already. -/
theorem known {next : α → β → Prop} {y : Except SettingsError β} {a : α} (ha : described a)
    (hunique : ∀ b, described b → b = a) (hy : Settles (next a) fails y) :
    Settles (fun b => ∃ a, described a ∧ next a b) fails y :=
  hy.congr fun b => by
    constructor
    · exact fun h => ⟨a, ha, h⟩
    · rintro ⟨a', ha', h⟩
      exact hunique a' ha' ▸ h

theorem bind {next : α → β → Prop} {f : α → Except SettingsError β} (hx : Settles described fails x)
    (hf : ∀ a, described a → Settles (next a) fails (f a)) :
    Settles (fun b => ∃ a, described a ∧ next a b) fails (x >>= f) := by
  cases hx with
  | accepted ha hunique => exact known ha hunique (hf _ ha)
  | rejected hmessage hnone => exact .rejected hmessage fun b ⟨a, ha, _⟩ => hnone a ha
  | unreachable he => exact .unreachable he

/-- A list must not be empty. -/
theorem check {items : List β} {e : SettingsError} (he : e.message?.isSome)
    (hx : items ≠ [] → Settles described fails x) :
    Settles (fun a => items ≠ [] ∧ described a) fails (if items.isEmpty then .error e else x) := by
  cases items with
  | nil => exact .rejected he fun a h => h.1 rfl
  | cons item rest => exact (hx (List.cons_ne_nil _ _)).congr fun a => by simp

end Settles

/-! ## Values -/

/-- The texts without white space at their ends; blank ones are left out. -/
def Text.trimmed (texts : List String) : List String := (texts.map strip).filter (· ≠ "")

namespace Value

/-- The value is a mapping with these entries. -/
def Maps (v : Value) (entries : Mapping) : Prop := ∃ mark, v.unrolled = .mapping mark entries

/-- The value is a mapping with these entries, or null in place of an empty one. -/
def MapsOrNull (v : Value) (entries : Mapping) : Prop := v.unrolled = .null ∧ entries = [] ∨ v.Maps entries

/-- The value is a list of these items. -/
def Lists (v : Value) (items : List Value) : Prop := ∃ mark, v.unrolled = .list mark items

/-- The value is a text, or a list of texts. -/
inductive Enumerates (v : Value) : List String → Prop
  | text {s : String} : v.unrolled = .text s → Enumerates v [s]
  | list {texts : List String} : v.Lists (texts.map .text) → Enumerates v texts

/-- The value gives names: the texts that are not blank, of which there is one at least. -/
inductive Names (v : Value) : List String → Prop
  | trimmed {texts : List String} : v.Enumerates texts → Text.trimmed texts ≠ [] → Names v (Text.trimmed texts)

/-- The value is a text that is not blank. -/
inductive Says : Value → String → Prop
  | text {s : String} : Text.strip s ≠ "" → Says (.text s) (Text.strip s)

/-- The value is null or a text, which counts only if it is not blank. -/
inductive MaySay : Value → Option String → Prop
  | null : MaySay .null none
  | blank {s : String} : Text.strip s = "" → MaySay (.text s) none
  | text {v : Value} {s : String} : v.Says s → MaySay v (some s)

variable {fails : FileError → Prop} {v : Value}

theorem content_of_maps {entries : Mapping} (h : v.Maps entries) : v.content = entries := by
  obtain ⟨mark, h⟩ := h
  exact content_of_unrolled h

theorem content_of_mapsOrNull {entries : Mapping} (h : v.MapsOrNull entries) : v.content = entries := by
  rcases h with ⟨hnull, rfl⟩ | hentries
  · simp [content, hnull]
  · exact content_of_maps hentries

theorem settles_section? (name : String) (v : Value) : Settles v.Maps fails (v.section? name) := by
  unfold section?
  split
  · rename_i hmapping
    refine .accepted ⟨_, hmapping⟩ fun entries h => ?_
    rw [← content_of_maps h, content_of_unrolled hmapping]
  · rename_i hnot
    exact .rejected rfl fun entries ⟨mark, h⟩ => hnot mark entries h

theorem textItems_map (field : String) (texts : List String) :
    textItems field (texts.map .text) = .ok (Text.trimmed texts) := by
  induction texts with
  | nil => rfl
  | cons s rest ih =>
    rw [List.map_cons, textItems, ih]
    by_cases hs : Text.strip s = ""
    · simp [bind, Except.bind, pure, Except.pure, Text.trimmed, hs]
    · simp [bind, Except.bind, pure, Except.pure, Text.trimmed, hs]

/-- Items that are read are texts. -/
theorem exists_texts_of_textItems {field : String} {items : List Value} {names : List String}
    (h : textItems field items = .ok names) : ∃ texts : List String, items = texts.map .text := by
  induction items generalizing names with
  | nil => exact ⟨[], rfl⟩
  | cons item rest ih =>
    unfold textItems at h
    split at h
    · rename_i heq
      cases heq
    · rename_i s rest' heq
      cases heq
      obtain ⟨others, hothers, -⟩ := bind_eq_ok_iff.1 h
      obtain ⟨texts, rfl⟩ := ih hothers
      exact ⟨s :: texts, rfl⟩
    · cases h

theorem message_of_textItems {field : String} {items : List Value} {e : SettingsError}
    (h : textItems field items = .error e) : e.message?.isSome := by
  induction items with
  | nil => cases h
  | cons item rest ih =>
    unfold textItems at h
    split at h
    · cases h
    · rename_i heq
      cases heq
      rcases bind_eq_error_iff.1 h with h | ⟨others, -, h⟩
      · exact ih h
      · cases h
    · cases h
      rfl

theorem message_of_texts {field : String} {e : SettingsError} (h : v.texts field = .error e) : e.message?.isSome := by
  unfold texts at h
  split at h
  · cases h
  · exact message_of_textItems h
  · exact message_of_textItems h
  · split at h <;> cases h
    rfl
  · cases h
    rfl

theorem Names.ne_nil {names : List String} (h : v.Names names) : names ≠ [] := by
  cases h with
  | trimmed _ hne => exact hne

theorem texts_of_names {field : String} {names : List String} (h : v.Names names) : v.texts field = .ok names := by
  obtain ⟨htexts | ⟨mark, htexts⟩, -⟩ := h
  · rw [texts, htexts]
    exact textItems_map field [_]
  · rw [texts, htexts]
    exact textItems_map field _

theorem names_of_texts {field : String} {names : List String} (h : v.texts field = .ok names) (hne : names ≠ []) :
    v.Names names := by
  have hitems : ∀ {items}, textItems field items = .ok names →
      ∃ texts : List String, items = texts.map .text ∧ names = Text.trimmed texts := by
    intro items h
    obtain ⟨texts, rfl⟩ := exists_texts_of_textItems h
    exact ⟨texts, rfl, Except.ok.inj (h.symm.trans (textItems_map field texts))⟩
  unfold texts at h
  split at h
  · cases h
    exact absurd rfl hne
  · rename_i s htext
    have hnames : Text.trimmed [s] = names := Except.ok.inj ((textItems_map field [s]).symm.trans h)
    subst hnames
    exact .trimmed (.text htext) hne
  · rename_i mark items hlist
    obtain ⟨texts, rfl, rfl⟩ := hitems h
    exact .trimmed (.list ⟨mark, hlist⟩) hne
  · split at h <;> cases h
    exact absurd rfl hne
  · cases h

/-- What is read from names that must be there. -/
theorem settles_names {β : Type} {next : List String → β → Prop} {f : List String → Except SettingsError β}
    (field : String) {e : SettingsError} (he : e.message?.isSome)
    (hf : ∀ names, v.Names names → Settles (next names) fails (f names)) :
    Settles (fun b => ∃ names, v.Names names ∧ next names b) fails
      (v.texts field >>= fun names => if names.isEmpty then .error e else f names) := by
  cases htexts : v.texts field with
  | error e' =>
    refine .rejected (message_of_texts htexts) ?_
    rintro b ⟨names, hnames, -⟩
    cases htexts.symm.trans (texts_of_names hnames)
  | ok names =>
    have hunique : ∀ names', v.Names names' → names' = names := fun names' h =>
      Except.ok.inj ((texts_of_names h).symm.trans htexts)
    by_cases hne : names = []
    · subst hne
      refine .rejected he ?_
      rintro b ⟨names, hnames, -⟩
      exact hnames.ne_nil (hunique names hnames)
    · have hnames := names_of_texts htexts hne
      have hfull : names.isEmpty = false := by simpa using hne
      refine Settles.known hnames hunique ?_
      change Settles _ _ (if names.isEmpty then _ else _)
      rw [hfull]
      exact hf names hnames

theorem settles_requiredText (field : String) (v : Value) : Settles v.Says fails (v.requiredText field) := by
  unfold requiredText
  split
  · rename_i s
    dsimp only
    split
    · rename_i hblank
      refine .rejected rfl ?_
      rintro _ ⟨hs⟩
      exact hs (String.isEmpty_iff.1 hblank)
    · rename_i hs
      refine .accepted (.text (mt String.isEmpty_iff.2 hs)) ?_
      rintro _ ⟨-⟩
      rfl
  · rename_i hnot
    refine .rejected rfl ?_
    rintro _ ⟨-⟩
    exact hnot _ rfl

theorem optionalText_of_says {field s : String} (h : v.Says s) : v.optionalText field = .ok (some s) := by
  cases h with
  | text hs =>
    unfold optionalText
    simp [hs]

theorem settles_optionalText (field : String) (v : Value) : Settles v.MaySay fails (v.optionalText field) := by
  unfold optionalText
  split
  · refine .accepted .null ?_
    rintro _ (_ | _ | hsays)
    · rfl
    · cases hsays
  · rename_i s
    dsimp only
    by_cases hs : Text.strip s = ""
    · rw [if_pos (String.isEmpty_iff.2 hs)]
      refine .accepted (.blank hs) ?_
      rintro _ (_ | _ | hsays)
      · rfl
      · cases hsays with
        | text hne => exact absurd hs hne
    · rw [if_neg (mt String.isEmpty_iff.1 hs)]
      refine .accepted (.text (.text hs)) ?_
      rintro _ (_ | hblank | hsays)
      · exact absurd hblank hs
      · cases hsays
        rfl
  · rename_i hnull htext
    refine .rejected rfl ?_
    rintro _ (_ | _ | hsays)
    · exact hnull rfl
    · exact htext _ rfl
    · cases hsays
      exact htext _ rfl

end Value

end SchemaClosure
