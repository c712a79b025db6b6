import SchemaClosure.Proofs.Files.Spelling
import SchemaClosure.Proofs.Settings.Acceptance
import SchemaClosure.Run.Project

/-!
# Which errors a configuration reports

A configuration that cannot be used is refused with a message, unless its file does not hold text, a scalar of it does
not fit its tag, or one of the relative paths in it cannot be spelled (`Configuration.Readable`). What reading a value
comes to is settled: either there is a message, or a look-up fails, which has a message in a run unless the path cannot
be spelled. The whole follows from that (`Configuration.words_load`).
-/

namespace SchemaClosure

/-- The error has a message in a run. -/
def SettingsError.Worded (e : SettingsError) : Prop := (RunError.configuration e).message?.isSome

/-- If there is an error it has a message. -/
def Words {α : Type} (result : Except SettingsError α) : Prop := ∀ e, result = .error e → e.Worded

/-- What has a message has one in a run. -/
theorem SettingsError.worded_of_message {e : SettingsError} (h : e.message?.isSome) : e.Worded := by
  cases e with
  | unreadable _ => cases h
  | unreachable _ => cases h
  | _ => exact h

namespace Words

variable {α : Type}

theorem error {e : SettingsError} (h : e.Worded) : Words (.error e : Except SettingsError α) := by
  intro e' he
  cases he
  exact h

theorem of_settles {described : α → Prop} {fails : FileError → Prop} {x : Except SettingsError α}
    (h : Settles described fails x) (hfails : ∀ e, fails e → e.Worded) : Words x := by
  cases h with
  | accepted _ _ => exact fun _ he => nomatch he
  | rejected hmessage _ => exact error (SettingsError.worded_of_message hmessage)
  | unreachable he => exact error (hfails _ he)

end Words

namespace Configuration

/-- The text stands for a path in a configuration. -/
inductive PathText (v : Value) : String → Prop
  | schema {texts : List String} {s : String} :
    ((v.content.field "schema").content.field "paths").texts "schema.paths" = .ok texts → s ∈ texts → PathText v s
  | output {s : String} :
    ((v.content.field "output").content.field "path").optionalText "output.path" = .ok (some s) → PathText v s

/-- What is wrong with a configuration at a path is reported: its file holds text, its scalars fit their tags, and the
relative paths in it can be spelled. -/
structure Readable (fs : FileSystem) (path : Path) : Prop where
  legible : ∀ q, fs.read path ≠ .error (.undecodable q)
  fits : ∀ text fault, fs.read path = .ok text → Yaml.parse 0 text = .error fault → fault = .malformed
  spelled : ∀ text v s, fs.read path = .ok text → Yaml.parse 0 text = .ok v → PathText v s →
    (Path.of s).isAbsolute = false → (Path.of s).Spelled

theorem NamesPath.pathText {v : Value} {s : String} (h : NamesPath v s) : PathText v s := by
  cases h with
  | schema hnames hs => exact .schema (Value.texts_of_names hnames) hs
  | output hsays => exact .output (Value.optionalText_of_says hsays)

/-- A look-up of a path that can be spelled fails with a message. -/
theorem LookFails.worded {fs : FileSystem} {base : Path} {s : String} {e : FileError} (h : LookFails fs base s e)
    (hs : (Path.of s).isAbsolute = false → (Path.of s).Spelled) : e.Worded := by
  cases h with
  | misspelled hrelative hfault => cases hfault.symm.trans (hs hrelative)
  | look hlook => exact FileSystem.worded_of_look hlook

theorem words_ofValue (fs : FileSystem) (path : Path) (v : Value)
    (h : ∀ s, PathText v s → (Path.of s).isAbsolute = false → (Path.of s).Spelled) : Words (ofValue fs path v) :=
  .of_settles (settles_ofValue fun _ _ hs he => he.worded (h _ hs.pathText)) fun _ => id

/-- **Which errors a configuration reports.** -/
theorem words_load {fs : FileSystem} {path : Path} (hpath : path.Spelled) (h : Readable fs path) :
    Words (load fs path) := by
  unfold load
  split
  · rename_i hlook
    exact .error (FileSystem.worded_of_look hlook)
  · exact .error rfl
  · split
    · rename_i e hread
      cases e with
      | file e => exact .error (FileSystem.worded_of_read hpath hread)
      | undecodable q => exact absurd hread (h.legible q)
    · rename_i text hread
      split
      · rename_i fault hparse
        rw [h.fits text fault hread hparse]
        exact .error rfl
      · rename_i v hparse
        exact words_ofValue fs path v fun s hs hrelative => h.spelled text v s hread hparse hs hrelative

end Configuration

end SchemaClosure
