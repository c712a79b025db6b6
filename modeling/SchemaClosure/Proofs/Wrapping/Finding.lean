import SchemaClosure.Proofs.Files.Looking
import SchemaClosure.Proofs.Files.Spelling
import SchemaClosure.Wrapping.Template

/-!
# Which file the name of a template denotes

A name that is not built in denotes the file at its path, seen from a directory (`Wrapper.denoted`). It is looked for
among the built-in templates first, and a name that leads out of their directory can find another file there. What is
loaded is the file that the name denotes iff nothing is found in that way, or the same text
(`Wrapper.load_eq_denoted_iff`); a name that leads downwards finds nothing (`Wrapper.missed_of_downward`). Of all files
only these two matter (`Wrapper.load_congr`).
-/

namespace SchemaClosure

namespace FileSystem

/-- All files hold text. -/
def HoldsText (fs : FileSystem) : Prop := ∀ place, fs.entryAt? place ≠ some (.file none)

theorem mem_of_lookup {entries : List (List String × Entry)} {place : List String} {e : Entry}
    (h : entries.lookup place = some e) : (place, e) ∈ entries := by
  obtain ⟨before, after, rfl, -⟩ := List.lookup_eq_some_iff.1 h
  exact List.mem_append_right before List.mem_cons_self

theorem mem_entries {fs : FileSystem} {place : List String} {text : Option String}
    (h : fs.entryAt? place = some (.file text)) : (place, .file text) ∈ fs.entries := by
  rw [entryAt?] at h
  split at h
  · cases h
  · exact mem_of_lookup h

theorem HoldsText.of_entries {fs : FileSystem} (h : ∀ entry ∈ fs.entries, entry.2 ≠ .file none) : fs.HoldsText :=
  fun _ hfile => h _ (mem_entries hfile) rfl

theorem read_eq_ok_iff {fs : FileSystem} {p : Path} {text : String} :
    fs.read p = .ok text ↔
      ∃ s, fs.entry? p = some (.file (some s)) ∧ text = String.ofList (lineFeeds s.toList) := by
  rw [read, entry?]
  cases fs.locate p with
  | error fault => simp
  | ok place =>
    dsimp only
    split <;> rename_i h <;> simp [h, eq_comm]

theorem read_eq_undecodable_iff {fs : FileSystem} {p q : Path} :
    fs.read p = .error (.undecodable q) ↔ fs.entry? p = some (.file none) ∧ q = p := by
  rw [read, entry?]
  cases fs.locate p with
  | error fault => simp
  | ok place =>
    dsimp only
    split <;> rename_i h <;> simp [h, eq_comm]

theorem HoldsText.decodable {fs : FileSystem} (h : fs.HoldsText) (p : Path) : fs.entry? p ≠ some (.file none) := by
  unfold FileSystem.entry?
  split
  · exact h _
  · simp

end FileSystem

namespace Wrapper

/-- The text of the file that a name denotes from a directory, if there is one. -/
def denoted (fs : FileSystem) (home : Option Path) (name : String) : Except Error String :=
  match fs.entry? (customPlace fs home name) with
  | some (.file (some s)) => .ok (String.ofList (FileSystem.lineFeeds s.toList))
  | _ => .error (.notFound name (customPlace fs home name))

variable {fs : FileSystem} {home : Option Path} {name : String}

theorem denoted_eq_of_read {text : String} (h : fs.read (customPlace fs home name) = .ok text) :
    denoted fs home name = .ok text := by
  obtain ⟨s, hfile, rfl⟩ := FileSystem.read_eq_ok_iff.1 h
  unfold denoted
  rw [hfile]

theorem denoted_eq_notFound (h : ∀ text, fs.read (customPlace fs home name) ≠ .ok text) :
    denoted fs home name = .error (.notFound name (customPlace fs home name)) := by
  unfold denoted
  split
  · rename_i s hfile
    exact absurd (FileSystem.read_eq_ok_iff.2 ⟨s, hfile, rfl⟩) (h _)
  · rfl

/-- What is not looked for among the built-in templates is the file that the name denotes, if that can be spelled. -/
theorem loadCustom_eq (htext : fs.HoldsText) (home : Option Path) (name : String) :
    loadCustom fs home name =
      match (customPath fs home name).spellingFault? with
      | some fault => .error (.unreachable ⟨fault, customPath fs home name⟩)
      | none => denoted fs home name := by
  unfold loadCustom
  cases (customPath fs home name).spellingFault? with
  | some fault => rfl
  | none =>
    dsimp only
    cases hread : fs.read (customPlace fs home name) with
    | ok text => rw [denoted_eq_of_read hread]
    | error e =>
      cases e with
      | file e => rw [denoted_eq_notFound (by simp [hread])]
      | undecodable place => exact absurd (FileSystem.read_eq_undecodable_iff.1 hread).1 (htext.decodable _)

theorem denoted_ne_unreachable (e : FileError) : denoted fs home name ≠ .error (.unreachable e) := by
  unfold denoted
  split <;> simp

theorem loadCustom_eq_denoted_iff (htext : fs.HoldsText) :
    loadCustom fs home name = denoted fs home name ↔ (customPath fs home name).Spelled := by
  rw [loadCustom_eq htext, Path.Spelled]
  split
  · rename_i fault hfault
    simpa [hfault] using (denoted_ne_unreachable _).symm
  · rename_i hspelled
    simp [hspelled]

/-! ## Built-in templates -/

/-- The installed program alone. -/
def alone (host : Host) : FileSystem := { host with entries := installed host }

theorem entryAt?_withInstalled (fs : FileSystem) (place : List String) :
    (withInstalled fs).entryAt? place = ((alone fs.toHost).entryAt? place).or (fs.entryAt? place) := by
  cases place with
  | nil => rfl
  | cons name rest => simp [FileSystem.entryAt?, withInstalled, alone, List.lookup_append]

theorem holdsText_withInstalled (h : fs.HoldsText) : (withInstalled fs).HoldsText := by
  have halone : (alone fs.toHost).HoldsText := .of_entries fun entry hentry => by
    simp only [alone, installed, List.mem_append, List.mem_map] at hentry
    rcases hentry with (⟨_, -, rfl⟩ | ⟨_, -, rfl⟩) | ⟨_, -, rfl⟩ <;> simp
  intro place hfile
  rw [entryAt?_withInstalled, Option.or_eq_some_iff] at hfile
  rcases hfile with hfile | ⟨-, hfile⟩
  · exact halone place hfile
  · exact h place hfile

theorem load_eq (htext : fs.HoldsText) (home : Option Path) (name : String) :
    load fs home name =
      match (withInstalled fs).look (builtinPath fs.toHost name) with
      | .error e => .error (.unreachable e)
      | .ok (some (.file (some s))) => .ok (String.ofList (FileSystem.lineFeeds s.toList))
      | .ok _ => loadCustom fs home name := by
  unfold load
  cases hlook : (withInstalled fs).look (builtinPath fs.toHost name) with
  | error e => rfl
  | ok found =>
    have hentry := FileSystem.entry?_of_look hlook
    match found with
    | some (.file (some s)) =>
      dsimp only
      rw [FileSystem.read_eq_ok_iff.2 ⟨s, hentry, rfl⟩]
    | some (.file none) => exact absurd hentry ((holdsText_withInstalled htext).decodable _)
    | some .directory => rfl
    | none => rfl

/-- Nothing is found under a name among the built-in templates. -/
structure Missed (fs : FileSystem) (name : String) : Prop where
  /-- No part of the name is too long to be looked for. -/
  reachable : ∀ e, (withInstalled fs).look (builtinPath fs.toHost name) ≠ .error e
  free : ∀ text, FileSystem.entry? (withInstalled fs) (builtinPath fs.toHost name) ≠ some (.file text)

theorem load_of_missed (h : Missed fs name) (home : Option Path) : load fs home name = loadCustom fs home name := by
  unfold load
  split
  · rename_i e hlook
    exact absurd hlook (h.reachable e)
  · rename_i text hlook
    exact absurd (FileSystem.entry?_of_look hlook) (h.free text)
  · rfl

/-- A name gives the file that it denotes iff nothing is found under it among the built-in templates, or the same text. -/
theorem load_eq_denoted (htext : fs.HoldsText) : load fs home name = denoted fs home name ↔
    Missed fs name ∧ (customPath fs home name).Spelled ∨
    ∃ s, FileSystem.entry? (withInstalled fs) (builtinPath fs.toHost name) = some (.file (some s)) ∧
      denoted fs home name = .ok (String.ofList (FileSystem.lineFeeds s.toList)) := by
  rw [load_eq htext]
  split
  · rename_i e hlook
    refine iff_of_false (denoted_ne_unreachable e).symm ?_
    rintro (⟨hmissed, -⟩ | ⟨s, hentry, -⟩)
    · exact hmissed.reachable e hlook
    · cases hlook.symm.trans (FileSystem.look_of_found hentry)
  · rename_i s hlook
    have hentry := FileSystem.entry?_of_look hlook
    constructor
    · exact fun heq => .inr ⟨s, hentry, heq.symm⟩
    · rintro (⟨hmissed, -⟩ | ⟨t, hfound, heq⟩)
      · exact absurd hentry (hmissed.free _)
      · cases hentry.symm.trans hfound
        exact heq.symm
  · rename_i found hnone hlook
    have hentry := FileSystem.entry?_of_look hlook
    have hmissed : Missed fs name := by
      refine ⟨by simp [hlook], fun text hfile => ?_⟩
      rw [hfile] at hentry
      cases text with
      | none => exact (holdsText_withInstalled htext).decodable _ hfile
      | some s => exact hnone s hentry.symm
    rw [loadCustom_eq_denoted_iff htext]
    constructor
    · exact fun hspelled => .inl ⟨hmissed, hspelled⟩
    · rintro (⟨-, hspelled⟩ | ⟨s, hfound, -⟩)
      · exact hspelled
      · exact absurd hfound (hmissed.free _)

/-! ## Names that lead downwards -/

/-- The path of a name with the ending of the built-in templates. -/
def ended (name : String) : Path := .of (name ++ ".js")

/-- A name that leads downwards from the directory of the built-in templates, which has no detours, to none of them, in
parts that are not too long. -/
structure Downward (host : Host) (name : String) : Prop where
  relative : (ended name).isAbsolute = false
  inside : Path.upward ∉ (builtinPath host name).names
  other : ∀ builtin ∈ builtinNames, (ended name).names ≠ [builtin ++ ".js"]
  short : ∀ part ∈ (builtinPath host name).names, Text.octets part ≤ Path.longestName
  fits : Text.octets (builtinPath host name).text ≤ Path.longestText

/-- The directory of the built-in templates holds nothing else. -/
def Untouched (fs : FileSystem) : Prop :=
  ∀ names, names ≠ [] → fs.entryAt? (directory fs.toHost ++ names) ≠ none →
    ∃ builtin ∈ builtinNames, names = [builtin ++ ".js"]

theorem builtinPath_of_relative {host : Host} (h : (ended name).isAbsolute = false) :
    builtinPath host name = ⟨1, directory host ++ (ended name).names⟩ := by
  rw [builtinPath, Path.join, show Path.of (name ++ ".js") = ended name from rfl, if_neg (by simp [h])]

theorem resolve_builtinPath (h : Downward fs.toHost name) :
    (fs.resolve (builtinPath fs.toHost name)).names = directory fs.toHost ++ (ended name).names := by
  have hinside := h.inside
  rw [builtinPath_of_relative h.relative] at hinside ⊢
  rw [FileSystem.resolve, Path.resolve, if_pos (by rfl), Path.descend_of_not_mem hinside, List.nil_append]

/-- The installed program has a directory of built-in templates. -/
theorem entryAt?_directory (host : Host) : (alone host).entryAt? (directory host) = some .directory := by
  have hmem : (directory host, Entry.directory) ∈ installed host := by
    simp only [installed, List.mem_append, List.mem_map]
    have hlast : (directory host).length - 1 + 1 = (directory host).length := by simp [directory]
    exact .inl (.inl ⟨(directory host).length - 1, by simp [directory], by rw [hlast, List.take_length]⟩)
  have hall : ∀ e, (directory host, e) ∈ installed host → e = .directory := by
    intro e h
    simp only [installed, List.mem_append, List.mem_map, Prod.mk.injEq] at h
    rcases h with (⟨_, -, -, rfl⟩ | ⟨_, -, -, rfl⟩) | ⟨_, -, heq, -⟩
    · rfl
    · rfl
    · simp at heq
  obtain ⟨e, he⟩ := Option.isSome_iff_exists.1 (List.lookup_isSome_iff.2 ⟨_, hmem, beq_self_eq_true _⟩)
  rw [FileSystem.entryAt?, if_neg (by simp [directory]), alone, he, hall e (FileSystem.mem_of_lookup he)]

/-- Below that directory there is nothing but the built-in templates. -/
theorem names_of_installed {host : Host} {names : List String} {e : Entry} (hne : names ≠ [])
    (h : (directory host ++ names, e) ∈ installed host) : ∃ builtin ∈ builtinNames, names = [builtin ++ ".js"] := by
  have hlength : 0 < names.length := List.length_pos_iff.2 hne
  simp only [installed, List.mem_append, List.mem_map, Prod.mk.injEq] at h
  rcases h with (⟨n, -, heq, -⟩ | ⟨part, -, heq, -⟩) | ⟨⟨builtin, text⟩, hbuiltin, heq, -⟩
  · have := congrArg List.length heq
    simp only [List.length_take, List.length_append] at this
    omega
  · have := congrArg List.length heq
    simp only [directory, List.length_append, List.length_cons] at this
    omega
  · exact ⟨builtin, List.mem_map_of_mem hbuiltin, (List.append_cancel_left heq).symm⟩

theorem names_of_file {names : List String} {text : Option String} (hu : Untouched fs)
    (h : (withInstalled fs).entryAt? (directory fs.toHost ++ names) = some (.file text)) :
    ∃ builtin ∈ builtinNames, names = [builtin ++ ".js"] := by
  have hne : names ≠ [] := by
    rintro rfl
    rw [List.append_nil, entryAt?_withInstalled, entryAt?_directory] at h
    cases h
  rw [entryAt?_withInstalled, Option.or_eq_some_iff] at h
  rcases h with h | ⟨-, h⟩
  · exact names_of_installed hne (FileSystem.mem_entries h)
  · exact hu names hne (by simp [h])

/-- No such name is found among the built-in templates. -/
theorem missed_of_downward (hu : Untouched fs) (h : Downward fs.toHost name) : Missed fs name := by
  refine ⟨FileSystem.look_ne_error h.fits h.short, fun text hfile => ?_⟩
  obtain ⟨place, hplace, hentry⟩ := FileSystem.entry?_eq_some_iff.1 hfile
  have hresolve : ((withInstalled fs).resolve (builtinPath fs.toHost name)).names =
      directory fs.toHost ++ (ended name).names := resolve_builtinPath h
  rw [FileSystem.locate_eq_resolve hplace, hresolve] at hentry
  obtain ⟨builtin, hbuiltin, hnames⟩ := names_of_file hu hentry
  exact h.other builtin hbuiltin hnames

/-! ## Other files -/

theorem sameDirectories_withInstalled {other : FileSystem} (h : FileSystem.SameDirectories fs other) :
    FileSystem.SameDirectories (withInstalled fs) (withInstalled other) := by
  refine ⟨h.host, fun place => ?_⟩
  simp only [entryAt?_withInstalled, Option.or_eq_some_iff, h.directories place, h.host]

theorem denoted_congr {other : FileSystem} (hhost : other.toHost = fs.toHost)
    (h : other.entry? (customPlace fs home name) = fs.entry? (customPlace fs home name)) :
    denoted other home name = denoted fs home name := by
  have hplace : customPlace other home name = customPlace fs home name := by
    unfold customPlace customPath FileSystem.resolve
    rw [hhost]
  unfold denoted
  rw [hplace, h]

theorem loadCustom_congr {other : FileSystem} (htext : fs.HoldsText) (hother : other.HoldsText)
    (h : FileSystem.SameDirectories fs other)
    (hown : other.entryAt? (fs.resolve (customPlace fs home name)).names =
      fs.entryAt? (fs.resolve (customPlace fs home name)).names) :
    loadCustom other home name = loadCustom fs home name := by
  have hpath : customPath other home name = customPath fs home name := by
    unfold customPath
    rw [h.host]
  rw [loadCustom_eq htext, loadCustom_eq hother, hpath, denoted_congr h.host (h.sees hown).2]

/-- Of all files, only the one that a name denotes and the one that it leads to among the built-in templates matter. -/
theorem load_congr {other : FileSystem} (htext : fs.HoldsText) (hother : other.HoldsText)
    (h : FileSystem.SameDirectories fs other)
    (hown : other.entryAt? (fs.resolve (customPlace fs home name)).names =
      fs.entryAt? (fs.resolve (customPlace fs home name)).names)
    (hbuiltin : other.entryAt? (fs.resolve (builtinPath fs.toHost name)).names =
      fs.entryAt? (fs.resolve (builtinPath fs.toHost name)).names) : load other home name = load fs home name := by
  have hlook := (sameDirectories_withInstalled h).sees (p := builtinPath fs.toHost name) (by
    rw [entryAt?_withInstalled, entryAt?_withInstalled, h.host]
    exact congrArg _ hbuiltin)
  rw [load_eq htext, load_eq hother, h.host, hlook.1, loadCustom_congr htext hother h hown]

/-- **Which file the name of a template denotes.** Where all files hold text, a name gives the file that it denotes iff
nothing is found under it among the built-in templates and its path can be spelled, or if the same text is found there.
This is so for every name that leads downwards from their directory to none of them. No other file than the one that
the name denotes and the one that it leads to among the built-in templates makes a difference, and for a name that leads
downwards the latter makes none. -/
theorem load_eq_denoted_iff (htext : fs.HoldsText) (home : Option Path) (name : String) :
    (load fs home name = denoted fs home name ↔
      Missed fs name ∧ (customPath fs home name).Spelled ∨
      ∃ s, FileSystem.entry? (withInstalled fs) (builtinPath fs.toHost name) = some (.file (some s)) ∧
        denoted fs home name = .ok (String.ofList (FileSystem.lineFeeds s.toList))) ∧
    (Untouched fs → Downward fs.toHost name → (customPath fs home name).Spelled →
      load fs home name = denoted fs home name) ∧
    ∀ other : FileSystem, other.HoldsText → FileSystem.SameDirectories fs other →
      other.entryAt? (fs.resolve (customPlace fs home name)).names =
        fs.entryAt? (fs.resolve (customPlace fs home name)).names →
      other.entryAt? (fs.resolve (builtinPath fs.toHost name)).names = fs.entryAt? (fs.resolve (builtinPath fs.toHost name)).names ∨
        Downward fs.toHost name ∧ Untouched fs ∧ Untouched other →
      load other home name = load fs home name := by
  refine ⟨load_eq_denoted htext, fun huntouched hdownward hspelled => ?_, fun other hother hsame hown h => ?_⟩
  · exact (load_eq_denoted htext).2 (.inl ⟨missed_of_downward huntouched hdownward, hspelled⟩)
  · rcases h with hbuiltin | ⟨hdownward, huntouched, huntouched'⟩
    · exact load_congr htext hother hsame hown hbuiltin
    · rw [load_of_missed (missed_of_downward huntouched hdownward),
        load_of_missed (missed_of_downward huntouched' (hsame.host ▸ hdownward)), loadCustom_congr htext hother hsame hown]

/-- A directory with two files, whose names differ in the ending of the built-in templates. -/
def neighbours : FileSystem :=
  { home := ["work"], program := ["opt", "schema-pruner"], limit := none
    entries := [(["work"], .directory), (["work", "gen"], .file (some "$OUTPUT;")),
      (["work", "gen.js"], .file (some "none"))] }

theorem holdsText_neighbours : neighbours.HoldsText := .of_entries (by decide)

theorem untouched_neighbours : Untouched neighbours := by
  intro names _ h
  simp [neighbours, FileSystem.entryAt?, directory] at h

theorem downward_gen : Downward neighbours.toHost "gen" := by
  constructor <;> decide +kernel

theorem load_eq_denoted_iff_gen : neighbours.HoldsText ∧ Untouched neighbours ∧ Downward neighbours.toHost "gen" ∧
    (customPath neighbours none "gen").Spelled ∧ load neighbours none "gen" = denoted neighbours none "gen" := by
  have hspelled : (customPath neighbours none "gen").Spelled := by decide +kernel
  exact ⟨holdsText_neighbours, untouched_neighbours, downward_gen, hspelled,
    (load_eq_denoted_iff holdsText_neighbours none "gen").2.1 untouched_neighbours downward_gen hspelled⟩

/-- An absolute name gives the file whose name has the ending of the built-in templates, not the one that it denotes. -/
theorem load_ne_denoted : "/work/gen" ∉ builtinNames ∧
    denoted neighbours none "/work/gen" = .ok "$OUTPUT;" ∧ load neighbours none "/work/gen" = .ok "none" :=
  ⟨by decide, by rfl, by rfl⟩

end Wrapper

end SchemaClosure
