import SchemaClosure.Proofs.Files.Writing
import SchemaClosure.Proofs.Text.Dotted

/-!
# Errors of files that have a message

What goes wrong with a path that can be spelled has a message (`FileError.Worded`): only a null character or a surrogate
in a name has none, or a surrogate in the text that is written. A path can be spelled iff its names can
(`Path.spelled_iff`), and with it the paths that lead to it.
-/

namespace SchemaClosure

namespace Path

/-- The path has no null character, and no surrogate but those that stand for octets. -/
def Spelled (p : Path) : Prop := p.spellingFault? = none

instance (p : Path) : Decidable p.Spelled := inferInstanceAs (Decidable (_ = none))

/-- A character that may stand in a path. -/
def Spells (c : Char) : Prop := (Text.isSurrogate c && !Text.isLoneOctet c) = false ∧ c ≠ '\x00'

theorem spelled_iff_text {p : Path} : p.Spelled ↔ ∀ c ∈ p.text.toList, Spells c := by
  rw [Spelled, spellingFault?]
  split
  · rename_i hsurrogate
    obtain ⟨c, hc, hbad⟩ := List.any_eq_true.1 hsurrogate
    exact iff_of_false (by simp) fun h => absurd hbad (Bool.eq_false_iff.1 (h c hc).1)
  · rename_i hsurrogate
    split
    · rename_i hnull
      exact iff_of_false (by simp) fun h => (h _ (by simpa using hnull)).2 rfl
    · rename_i hnull
      refine iff_of_true rfl fun c hc => ⟨?_, ?_⟩
      · exact Bool.eq_false_iff.2 fun hbad => hsurrogate (List.any_eq_true.2 ⟨c, hc, hbad⟩)
      · rintro rfl
        exact hnull (by simpa using hc)

/-- **A path can be spelled** iff its names can. -/
theorem spelled_iff {p : Path} : p.Spelled ↔ ∀ name ∈ p.names, ∀ c ∈ name.toList, Spells c := by
  have hdot : Spells '.' := by unfold Spells; decide
  have hslash : Spells '/' := by unfold Spells; decide
  rw [spelled_iff_text, text]
  split
  · rename_i hempty
    simp only [Bool.and_eq_true, decide_eq_true_eq, List.isEmpty_iff] at hempty
    simp [hempty.2, hdot]
  · simp only [String.toList_append, List.mem_append, Text.repeated, String.toList_ofList, List.mem_replicate]
    constructor
    · intro h name hname c hc
      exact h c (.inr (Text.mem_join_of_mem hname hc))
    · rintro h c (⟨-, rfl⟩ | hc)
      · exact hslash
      · rcases Text.mem_join hc with hc | ⟨name, hname, hc⟩
        · simp only [String.reduceToList, List.mem_singleton] at hc
          exact hc ▸ hslash
        · exact h name hname c hc

theorem Spelled.parent {p : Path} (h : p.Spelled) : p.parent.Spelled :=
  spelled_iff.2 fun name hname => spelled_iff.1 h name ((List.dropLast_sublist _).subset hname)

end Path

/-- The error has a message. -/
def FileError.Worded (e : FileError) : Prop := e.message?.isSome

namespace FileSystem

variable {fs fs' : FileSystem} {p : Path}

theorem worded_of_follow {place names : List String} {fault : FileFault} (h : fs.follow place names = .error fault)
    (p : Path) : (FileError.mk fault p).Worded := by
  induction names generalizing place with
  | nil => cases h
  | cons name names ih =>
    rw [follow] at h
    split at h
    · cases h
      rfl
    · cases h
      rfl
    · split at h
      · cases h
        rfl
      · exact ih h

theorem worded_of_locate (hp : p.Spelled) {fault : FileFault} (h : fs.locate p = .error fault) :
    (FileError.mk fault p).Worded := by
  rw [locate, hp] at h
  dsimp only at h
  split at h
  · cases h
    rfl
  · exact worded_of_follow h p

/-- Asking what is at a path goes wrong for a path that is too long only. -/
theorem worded_of_look {e : FileError} (h : fs.look p = .error e) : e.Worded := by
  rw [look] at h
  split at h
  · cases h
  · cases h
    rfl
  · cases h

theorem worded_of_read (hp : p.Spelled) {e : FileError} (h : fs.read p = .error (.file e)) : e.Worded := by
  rw [read] at h
  split at h
  · rename_i hplace
    cases h
    exact worded_of_locate hp hplace
  · split at h <;> cases h <;> rfl

end FileSystem

end SchemaClosure
