import SchemaClosure.Files.FileSystem

/-!
# What looking at a path depends on

A path leads to the place that it resolves to, if it leads anywhere (`FileSystem.locate_eq_resolve`). Whether it does
depends on the directories only (`FileSystem.SameDirectories.locate`), so that of all the files of a file system no
other than the one at this place can change what is found there (`FileSystem.SameDirectories.sees`).
-/

namespace SchemaClosure

namespace Path

/-- The place where a path from a working directory starts. -/
def start (home : List String) (p : Path) : List String := if p.isAbsolute then [] else home

/-- Names that lead downwards only are put behind the directory. -/
theorem descend_of_not_mem {place names : List String} (h : upward ∉ names) : descend place names = place ++ names := by
  induction names generalizing place with
  | nil => simp [descend]
  | cons name names ih =>
    rw [List.mem_cons, not_or] at h
    rw [descend, List.foldl_cons, if_neg (Ne.symm h.1)]
    exact (ih h.2).trans (by simp)

end Path

namespace FileSystem

theorem follow_eq_descend {fs : FileSystem} {place names target : List String}
    (h : fs.follow place names = .ok target) : target = Path.descend place names := by
  induction names generalizing place with
  | nil =>
    cases h
    rfl
  | cons name names ih =>
    rw [follow] at h
    split at h
    · cases h
    · cases h
    · split at h
      · cases h
      · exact ih h

/-- A path leads somewhere if it can be spelled, is not too long, and its names can be followed. -/
theorem locate_eq_ok_iff {fs : FileSystem} {p : Path} {place : List String} :
    fs.locate p = .ok place ↔ p.spellingFault? = none ∧ Text.octets p.text ≤ Path.longestText ∧
      fs.follow (p.start fs.home) p.names = .ok place := by
  rw [locate, Path.start]
  split
  · rename_i hfault
    simp [hfault]
  · rename_i hspelled
    split
    · rename_i hlong
      simp [Nat.not_le.2 hlong]
    · rename_i hshort
      simp [hspelled, Nat.not_lt.1 hshort]

/-- A path leads where it resolves to. -/
theorem locate_eq_resolve {fs : FileSystem} {p : Path} {place : List String} (h : fs.locate p = .ok place) :
    place = (fs.resolve p).names :=
  follow_eq_descend (locate_eq_ok_iff.1 h).2.2

/-- What is gone through on the way to a directory is a directory. -/
theorem entryAt?_of_follow {fs : FileSystem} {place names target : List String}
    (h : fs.follow place names = .ok target) (htarget : fs.entryAt? target = some .directory) (n : Nat) :
    fs.entryAt? (Path.descend place (names.take n)) = some .directory := by
  induction names generalizing place n with
  | nil =>
    cases h
    rwa [List.take_nil]
  | cons name names ih =>
    rw [follow] at h
    split at h
    · cases h
    · cases h
    · rename_i hdirectory
      split at h
      · cases h
      · cases n with
        | zero => exact hdirectory
        | succ n => exact ih h n

theorem isDirectory_iff {fs : FileSystem} {p : Path} :
    fs.isDirectory p ↔ ∃ place, fs.locate p = .ok place ∧ fs.entryAt? place = some .directory := by
  rw [isDirectory, decide_eq_true_iff, entry?]
  cases fs.locate p <;> simp

theorem entry?_eq_some_iff {fs : FileSystem} {p : Path} {e : Entry} :
    fs.entry? p = some e ↔ ∃ place, fs.locate p = .ok place ∧ fs.entryAt? place = some e := by
  unfold entry?
  cases fs.locate p <;> simp

theorem look_of_found {fs : FileSystem} {p : Path} {e : Entry} (h : fs.entry? p = some e) :
    fs.look p = .ok (some e) := by
  obtain ⟨place, hplace, hentry⟩ := entry?_eq_some_iff.1 h
  rw [look, hplace]
  exact congrArg _ hentry

theorem entry?_of_look {fs : FileSystem} {p : Path} {found : Option Entry} (h : fs.look p = .ok found) :
    fs.entry? p = found := by
  rw [look] at h
  unfold entry?
  cases hplace : fs.locate p with
  | ok place =>
    rw [hplace] at h
    exact Except.ok.inj h
  | error fault =>
    rw [hplace] at h
    cases fault <;> simp_all

theorem follow_ne_nameTooLong {fs : FileSystem} {place names : List String}
    (h : ∀ name ∈ names, Text.octets name ≤ Path.longestName) : fs.follow place names ≠ .error .nameTooLong := by
  induction names generalizing place with
  | nil => simp [follow]
  | cons name names ih =>
    rw [List.forall_mem_cons] at h
    rw [follow]
    split
    · simp
    · simp
    · rw [if_neg (Nat.not_lt.2 h.1)]
      exact ih h.2

/-- A path that is short enough, with names that are, can be looked for. -/
theorem look_ne_error {fs : FileSystem} {p : Path} (hfits : Text.octets p.text ≤ Path.longestText)
    (hshort : ∀ name ∈ p.names, Text.octets name ≤ Path.longestName) (e : FileError) : fs.look p ≠ .error e := by
  have hplace : fs.locate p ≠ .error .nameTooLong := by
    rw [locate]
    split
    · rename_i hfault
      rw [Path.spellingFault?] at hfault
      split at hfault
      · cases hfault
        simp
      · split at hfault <;> cases hfault
        simp
    · rw [if_neg (Nat.not_lt.2 hfits)]
      exact follow_ne_nameTooLong hshort
  rw [look]
  split
  · simp
  · rename_i hlong
    exact absurd hlong hplace
  · simp

/-! ## Directories only -/

/-- A result of following a path that no further file or directory could change. -/
def Settled (result : Except FileFault (List String)) : Prop :=
  result ≠ .error .missing ∧ result ≠ .error .notDirectory

theorem follow_of_directories {a b : FileSystem}
    (h : ∀ place, a.entryAt? place = some .directory → b.entryAt? place = some .directory)
    {place names : List String} (hsettled : Settled (a.follow place names)) :
    b.follow place names = a.follow place names := by
  induction names generalizing place with
  | nil => rfl
  | cons name names ih =>
    rw [follow] at hsettled ⊢
    rw [follow]
    split at hsettled
    · exact absurd rfl hsettled.1
    · exact absurd rfl hsettled.2
    · rename_i hdirectory
      rw [h place hdirectory]
      dsimp only
      split
      · rfl
      · rename_i hshort
        rw [if_neg hshort] at hsettled
        exact ih hsettled

/-- A path leads to the same place where there are more directories. -/
theorem locate_of_directories {a b : FileSystem} (hhome : b.home = a.home)
    (h : ∀ place, a.entryAt? place = some .directory → b.entryAt? place = some .directory)
    {p : Path} (hsettled : Settled (a.locate p)) : b.locate p = a.locate p := by
  rw [locate] at hsettled ⊢
  rw [locate]
  split
  · rfl
  · split
    · rfl
    · rename_i hspelled hshort
      rw [hspelled, if_neg hshort] at hsettled
      rw [hhome]
      exact follow_of_directories h hsettled

/-- The same directories on the same host. -/
structure SameDirectories (a b : FileSystem) : Prop where
  host : b.toHost = a.toHost
  directories : ∀ place, b.entryAt? place = some .directory ↔ a.entryAt? place = some .directory

namespace SameDirectories

variable {a b : FileSystem} {p : Path}

protected theorem symm (h : SameDirectories a b) : SameDirectories b a :=
  ⟨h.host.symm, fun place => (h.directories place).symm⟩

theorem locate (h : SameDirectories a b) (hsettled : Settled (a.locate p)) : b.locate p = a.locate p :=
  locate_of_directories (congrArg Host.home h.host) (fun place => (h.directories place).2) hsettled

theorem settled_iff (h : SameDirectories a b) : Settled (b.locate p) ↔ Settled (a.locate p) :=
  ⟨fun hsettled => h.symm.locate hsettled ▸ hsettled, fun hsettled => (h.locate hsettled).symm ▸ hsettled⟩

end SameDirectories

theorem look_of_not_settled {fs : FileSystem} {p : Path} (h : ¬ Settled (fs.locate p)) :
    fs.look p = .ok none ∧ fs.entry? p = none := by
  rw [look, entry?]
  cases hplace : fs.locate p with
  | ok place => exact absurd (by simp [Settled, hplace]) h
  | error fault => cases fault <;> simp_all [Settled]

namespace SameDirectories

variable {a b : FileSystem} {p : Path}

/-- Nothing but what stands at the end of a path is seen of the files. -/
theorem sees (h : SameDirectories a b)
    (hend : b.entryAt? (a.resolve p).names = a.entryAt? (a.resolve p).names) :
    b.look p = a.look p ∧ b.entry? p = a.entry? p := by
  by_cases hsettled : Settled (a.locate p)
  · rw [FileSystem.look, FileSystem.look, entry?, entry?, h.locate hsettled]
    cases hplace : a.locate p with
    | ok place => simp [locate_eq_resolve hplace, hend]
    | error fault => cases fault <;> exact ⟨rfl, rfl⟩
  · obtain ⟨hlook, hentry⟩ := look_of_not_settled hsettled
    obtain ⟨hlook', hentry'⟩ := look_of_not_settled (mt h.settled_iff.1 hsettled)
    exact ⟨hlook'.trans hlook.symm, hentry'.trans hentry.symm⟩

end SameDirectories

end FileSystem

end SchemaClosure
