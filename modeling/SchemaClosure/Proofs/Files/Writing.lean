import SchemaClosure.Proofs.Files.Looking
import SchemaClosure.Proofs.Text.CodePoint

/-!
# What writing changes

Making directories adds directories on the way to a path and changes nothing else, whether it succeeds or not
(`FileSystem.makeDirectories_grown`); if it succeeds, all of them are there (`FileSystem.entryAt?_of_passes`). Writing a
text below them changes no file if the path cannot be opened, and else the one where the path leads
(`FileSystem.writeBelow_cases`). That file holds the text, unless the device refuses a part of it: then it holds a beginning
(`FileSystem.prefix_of_written`).
-/

namespace SchemaClosure

namespace Path

/-- The place is on the way of a path from a working directory. -/
def Passes (home : List String) (p : Path) (place : List String) : Prop :=
  ∃ n, place = descend (p.start home) (p.names.take n)

theorem passes_end (home : List String) (p : Path) : p.Passes home (p.resolve home).names :=
  ⟨p.names.length, by rw [List.take_length]; rfl⟩

theorem Passes.of_parent {home place : List String} {p : Path} (h : p.parent.Passes home place) :
    p.Passes home place := by
  obtain ⟨n, hn⟩ := h
  refine ⟨min n (p.names.length - 1), ?_⟩
  rw [hn, parent, List.dropLast_eq_take, List.take_take]
  rfl

end Path

namespace FileSystem

/-! ## One entry -/

theorem lookup_putEntry (place q : List String) (e : Entry) (entries : List (List String × Entry)) :
    (putEntry place e entries).lookup q = if q = place then some e else entries.lookup q := by
  induction entries with
  | nil => by_cases hq : q = place <;> simp [putEntry, hq]
  | cons entry rest ih =>
    obtain ⟨k, f⟩ := entry
    by_cases hk : k = place
    · subst hk
      by_cases hq : q = k
      · simp [putEntry, hq]
      · simp [putEntry, hq, List.lookup_cons, beq_eq_false_iff_ne.2 hq]
    · by_cases hq : q = k
      · subst hq
        simp [putEntry, hk]
      · simp [putEntry, hk, List.lookup_cons, beq_eq_false_iff_ne.2 hq, ih]

/-- An entry that is put somewhere below the root is there, and all others are as before. -/
theorem entryAt?_put {place : List String} (hne : place ≠ []) (fs : FileSystem) (e : Entry) (q : List String) :
    (fs.put place e).entryAt? q = if q = place then some e else fs.entryAt? q := by
  rw [entryAt?, entryAt?, put, lookup_putEntry]
  by_cases hq : q = place
  · simp [hq, hne]
  · simp [hq]

/-! ## Directories -/

/-- Nothing has changed but for directories that are new on the way of a path. -/
structure Grown (p : Path) (fs fs' : FileSystem) : Prop where
  host : fs'.toHost = fs.toHost
  kept : ∀ place, fs.entryAt? place ≠ none → fs'.entryAt? place = fs.entryAt? place
  made : ∀ place, fs.entryAt? place = none → fs'.entryAt? place = none ∨
    fs'.entryAt? place = some .directory ∧ p.Passes fs.home place

namespace Grown

variable {p : Path} {a b c : FileSystem}

theorem home (h : Grown p a b) : b.home = a.home := congrArg Host.home h.host

theorem refl (p : Path) (fs : FileSystem) : Grown p fs fs := ⟨rfl, fun _ _ => rfl, fun _ h => .inl h⟩

theorem trans (hab : Grown p a b) (hbc : Grown p b c) : Grown p a c := by
  refine ⟨hbc.host.trans hab.host, fun place h => ?_, fun place h => ?_⟩
  · have hb := hab.kept place h
    rw [hbc.kept place (hb ▸ h), hb]
  · rcases hab.made place h with hb | ⟨hb, hpasses⟩
    · rw [← hab.home]
      exact hbc.made place hb
    · exact .inr ⟨by rw [hbc.kept place (by simp [hb]), hb], hpasses⟩

theorem of_parent (h : Grown p.parent a b) : Grown p a b :=
  ⟨h.host, h.kept, fun place hnone => (h.made place hnone).imp_right (And.imp_right Path.Passes.of_parent)⟩

/-- The files are the same. -/
theorem files (h : Grown p a b) (place : List String) (text : Option String) :
    b.entryAt? place = some (.file text) ↔ a.entryAt? place = some (.file text) := by
  cases ha : a.entryAt? place with
  | none => rcases h.made place ha with hb | ⟨hb, -⟩ <;> simp [hb]
  | some e => rw [h.kept place (by simp [ha]), ha]

/-- A path that leads somewhere still leads there. -/
theorem locate (h : Grown p a b) {q : Path} {place : List String} (hplace : a.locate q = .ok place) :
    b.locate q = .ok place := by
  rw [locate_of_directories h.home (fun place hdirectory => ?_) (by simp [Settled, hplace]), hplace]
  rw [h.kept place (by simp [hdirectory]), hdirectory]

end Grown

theorem makeDirectory_eq_ok {fs fs' : FileSystem} {p : Path} (h : fs.makeDirectory p = .ok fs') :
    ∃ place, fs.locate p = .ok place ∧ fs.entryAt? place = none ∧ fs' = fs.put place .directory := by
  rw [makeDirectory] at h
  split at h
  · cases h
  · rename_i place hplace
    split at h
    · cases h
    · rename_i hnone
      split at h <;> cases h
      exact ⟨place, hplace, hnone, rfl⟩

theorem ne_nil_of_entryAt? {fs : FileSystem} {place : List String} (h : fs.entryAt? place = none) : place ≠ [] := by
  rintro rfl
  simp [entryAt?] at h

theorem makeDirectory_grown {fs fs' : FileSystem} {p : Path} (h : fs.makeDirectory p = .ok fs') :
    Grown p fs fs' := by
  obtain ⟨place, hplace, hnone, rfl⟩ := makeDirectory_eq_ok h
  have hne := ne_nil_of_entryAt? hnone
  refine ⟨rfl, fun q hq => ?_, fun q hq => ?_⟩
  · rw [entryAt?_put hne, if_neg]
    rintro rfl
    exact hq hnone
  · rw [entryAt?_put hne]
    by_cases heq : q = place
    · rw [if_pos heq, heq, locate_eq_resolve hplace]
      exact .inr ⟨rfl, Path.passes_end fs.home p⟩
    · rw [if_neg heq]
      exact .inl hq

/-- Also what goes wrong on the way leaves only directories behind. -/
theorem makeDirectoriesFrom_grown (depth : Nat) (fs : FileSystem) (p : Path) :
    Grown p fs (fs.makeDirectoriesFrom p depth).1 := by
  induction depth generalizing fs p with
  | zero =>
    rw [makeDirectoriesFrom]
    split
    · exact makeDirectory_grown ‹_›
    · split <;> exact .refl p fs
  | succ depth ih =>
    rw [makeDirectoriesFrom]
    split
    · exact makeDirectory_grown ‹_›
    · split
      · have hparent := (ih fs p.parent).of_parent
        split
        · rename_i hfailed
          rwa [hfailed] at hparent
        · rename_i hmade
          rw [hmade] at hparent
          split
          · exact hparent.trans (makeDirectory_grown ‹_›)
          · split <;> exact hparent
      · split <;> exact .refl p fs

theorem makeDirectories_grown (fs : FileSystem) (p : Path) : Grown p fs (fs.makeDirectories p).1 :=
  makeDirectoriesFrom_grown _ fs p

/-- What a path passes on the way to a directory is a directory. -/
theorem entryAt?_of_passes {fs : FileSystem} {p : Path} (h : fs.isDirectory p) {place : List String}
    (hpasses : p.Passes fs.home place) : fs.entryAt? place = some .directory := by
  obtain ⟨target, hlocate, htarget⟩ := isDirectory_iff.1 h
  obtain ⟨n, rfl⟩ := hpasses
  exact entryAt?_of_follow (locate_eq_ok_iff.1 hlocate).2.2 htarget n

/-- What has been made is there. -/
theorem isDirectory_of_makeDirectory {fs fs' : FileSystem} {p : Path} (h : fs.makeDirectory p = .ok fs') :
    fs'.isDirectory p := by
  have hgrown := makeDirectory_grown h
  obtain ⟨place, hplace, hnone, rfl⟩ := makeDirectory_eq_ok h
  refine isDirectory_iff.2 ⟨place, hgrown.locate hplace, ?_⟩
  rw [entryAt?_put (ne_nil_of_entryAt? hnone), if_pos rfl]

theorem isDirectory_of_makeDirectoriesFrom {depth : Nat} {fs fs' : FileSystem} {p : Path}
    (h : fs.makeDirectoriesFrom p depth = (fs', none)) : fs'.isDirectory p := by
  cases depth with
  | zero =>
    rw [makeDirectoriesFrom] at h
    split at h
    · rename_i hmade
      cases h
      exact isDirectory_of_makeDirectory hmade
    · split at h <;> cases h
      assumption
  | succ depth =>
    rw [makeDirectoriesFrom] at h
    split at h
    · rename_i hmade
      cases h
      exact isDirectory_of_makeDirectory hmade
    · split at h
      · split at h
        · cases h
        · split at h
          · rename_i hmade
            cases h
            exact isDirectory_of_makeDirectory hmade
          · split at h <;> cases h
            assumption
      · split at h <;> cases h
        assumption

/-- Nothing is made where there is a directory. -/
theorem makeDirectories_of_isDirectory {fs : FileSystem} {p : Path} (h : fs.isDirectory p) :
    fs.makeDirectories p = (fs, none) := by
  obtain ⟨place, hplace, hdirectory⟩ := isDirectory_iff.1 h
  have hoccupied : fs.makeDirectory p = .error ⟨.occupied, p⟩ := by simp [makeDirectory, hplace, hdirectory]
  rw [makeDirectories]
  cases p.names.length <;> simp [makeDirectoriesFrom, hoccupied, h]

/-- Making directories changes nothing iff there is nothing to be made. -/
theorem makeDirectories_eq_self_iff {fs fs' : FileSystem} {p : Path} (h : fs.makeDirectories p = (fs', none)) :
    fs' = fs ↔ fs.isDirectory p := by
  constructor
  · rintro rfl
    exact isDirectory_of_makeDirectoriesFrom h
  · intro hdirectory
    rw [makeDirectories_of_isDirectory hdirectory] at h
    exact (Prod.mk.inj h).1.symm

/-! ## Files -/

/-- No directory is in the way of a path that can be opened. -/
theorem opened_eq_ok {fs : FileSystem} {p : Path} {place : List String} (h : fs.opened p = .ok place) :
    place = (fs.resolve p).names ∧ fs.entryAt? place ≠ some .directory := by
  rw [opened] at h
  split at h
  · cases h
  · rename_i target htarget
    have hresolve := locate_eq_resolve htarget
    split at h
    · cases h
    · rename_i hfile
      cases h
      exact ⟨hresolve, by simp [hfile]⟩
    · rename_i hnone
      split at h <;> cases h
      exact ⟨hresolve, by simp [hnone]⟩

/-- A beginning of a text is one. -/
theorem beginning?_prefix {room : Nat} {s t : List Char} (h : beginning? room s = some t) : t <+: s := by
  induction s generalizing room t with
  | nil =>
    rw [beginning?] at h
    exact Option.some.inj h ▸ List.prefix_rfl
  | cons c rest ih =>
    cases room with
    | zero =>
      rw [beginning?] at h
      exact Option.some.inj h ▸ List.nil_prefix
    | succ room =>
      simp only [beginning?] at h
      split at h
      · cases h
      · obtain ⟨front, hfront, rfl⟩ := Option.map_eq_some_iff.1 h
        exact List.prefix_cons_inj c |>.2 (ih hfront)

/-- In ASCII every octet is a character. -/
theorem beginning?_of_ascii {s : List Char} (h : ∀ c ∈ s, c.toNat < 0x80) (room : Nat) :
    beginning? room s = some (s.take room) := by
  induction s generalizing room with
  | nil => rw [beginning?, List.take_nil]
  | cons c rest ih =>
    rw [List.forall_mem_cons] at h
    cases room with
    | zero => rw [beginning?, List.take_zero]
    | succ room =>
      have hsize : c.utf8Size = 1 := Char.utf8Size_eq_one_iff.2 (UInt32.le_iff_toNat_le.2 (Nat.le_of_lt_succ h.1))
      simp only [beginning?, hsize]
      rw [if_neg (by omega), Nat.add_sub_cancel, ih h.2]
      rfl

/-- What an open file holds is a beginning of the text that was written to it, whatever went wrong. -/
theorem prefix_of_written {fs : FileSystem} {s t : String} (h : (fs.written s).1 = some t) : t.toList <+: s.toList := by
  unfold written at h
  split at h
  · cases h
    exact List.nil_prefix
  · split at h
    · cases h
      exact List.prefix_rfl
    · split at h
      · cases h
        exact List.prefix_rfl
      · obtain ⟨front, hfront, rfl⟩ := Option.map_eq_some_iff.1 h
        exact String.toList_ofList ▸ beginning?_prefix hfront

/-- A text with octets is written, or the device does not take all of it. -/
theorem written_of_encodable (fs : FileSystem) {s : String} (hs : Text.isEncodable s = true) :
    fs.written s = (some s, none) ∨ ∃ limit, fs.limit = some limit ∧ limit.octets < s.utf8ByteSize ∧
      fs.written s = ((beginning? limit.octets s.toList).map String.ofList, some (.refused limit.reason)) := by
  unfold written
  rw [hs]
  cases hlimit : fs.limit with
  | none => exact .inl rfl
  | some limit =>
    by_cases hroom : s.utf8ByteSize ≤ limit.octets
    · exact .inl (if_pos hroom)
    · exact .inr ⟨limit, rfl, Nat.not_le.1 hroom, if_neg hroom⟩

/-- What is written depends on the host only. -/
theorem written_congr {a b : FileSystem} (h : b.toHost = a.toHost) (s : String) : b.written s = a.written s := by
  rw [written, written, h]

/-- The file at the end of a path has been filled, below directories that are new on the way to it; nothing else has
changed. -/
structure Written (p : Path) (content : Option String) (fs fs' : FileSystem) : Prop where
  host : fs'.toHost = fs.toHost
  /-- No directory is in the way. -/
  free : fs.entryAt? (fs.resolve p).names ≠ some .directory
  file : fs'.entryAt? (fs.resolve p).names = some (.file content)
  others : ∀ place, place ≠ (fs.resolve p).names → fs'.entryAt? place = fs.entryAt? place ∨
    fs.entryAt? place = none ∧ fs'.entryAt? place = some .directory ∧ p.parent.Passes fs.home place

/-- A file that is put where a path leads, below what has grown on the way to it. -/
theorem Grown.written {fs between : FileSystem} {p : Path} {content : Option String} (h : Grown p.parent fs between)
    (hfree : between.entryAt? (between.resolve p).names ≠ some .directory) :
    Written p content fs (between.put (between.resolve p).names (.file content)) := by
  have hsame : between.resolve p = fs.resolve p := by rw [resolve, resolve, h.home]
  rw [hsame] at hfree ⊢
  have hne : (fs.resolve p).names ≠ [] := by
    intro hnil
    simp [hnil, entryAt?] at hfree
  refine ⟨h.host, fun hdirectory => hfree ?_, ?_, fun place hplace => ?_⟩
  · rw [h.kept _ (by simp [hdirectory]), hdirectory]
  · simp [entryAt?_put hne]
  · rw [entryAt?_put hne, if_neg hplace]
    by_cases hnone : fs.entryAt? place = none
    · rw [hnone]
      exact (h.made place hnone).imp_right fun hmade => ⟨rfl, hmade⟩
    · exact .inl (h.kept place hnone)

/-- **What writing below directories leaves.** If the path cannot be opened no file is changed; else the file at its end
is, also where an error is reported. -/
theorem writeBelow_cases (fs : FileSystem) (p : Path) (s : String) :
    Grown p.parent fs (fs.writeBelow p s).1 ∧ (fs.writeBelow p s).2.isSome ∨
    Written p (fs.written s).1 fs (fs.writeBelow p s).1 ∧
      (fs.writeBelow p s).2 = (fs.written s).2.map fun fault => ⟨fault, p⟩ := by
  have hgrown := makeDirectories_grown fs p.parent
  rw [writeBelow]
  split
  · rename_i hfailed
    rw [hfailed] at hgrown
    exact .inl ⟨hgrown, rfl⟩
  · rename_i between hmade
    rw [hmade] at hgrown
    rw [write]
    split
    · exact .inl ⟨hgrown, rfl⟩
    · rename_i place hopened
      obtain ⟨rfl, hfree⟩ := opened_eq_ok hopened
      rw [written_congr hgrown.host]
      exact .inr ⟨hgrown.written hfree, rfl⟩

end FileSystem

end SchemaClosure
