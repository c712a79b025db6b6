import SchemaClosure.Proofs.Discovery.Listing
import SchemaClosure.Proofs.Document.Equality
import SchemaClosure.Proofs.Settings.Settling

/-!
# Which configurations are accepted

A value describes a configuration (`Configuration.Describes`) if it is a mapping of three sections: the schema
documents, which exist, the requests, one for each entry of the filter, and where to write to, which may be left out.
A directory among the paths stands for the schema files in it, in natural order (`Discovery.Ordered`).
Each section settles what it describes, and from that a configuration file is accepted iff its value describes a
configuration (`Configuration.load_iff_describes`).
-/

namespace SchemaClosure

/-! ## What a value describes -/

namespace Value

/-- An entry of the filter asks for types of a namespace. -/
inductive Asks (v : Value) : Request → Prop
  | entry {entries : Mapping} {owner : String} {names : List String} : v.Maps entries →
    (entries.field "namespace").Says owner → (entries.field "types").Names names → Asks v (.of owner names)

/-- The filter is one entry, or a list of entries that is not empty. -/
inductive AsksAll (v : Value) : List Request → Prop
  | one {request : Request} : v.Asks request → AsksAll v [request]
  | several {items : List Value} {requests : List Request} : v.Lists items → items ≠ [] →
    List.Forall₂ Asks items requests → AsksAll v requests

end Value

namespace Discovery

/-- The files are the schema files of a directory in natural order: those that stand in it and have a known suffix,
upwards in rank, and where they tie as the directory lists them. -/
structure Ordered (fs : FileSystem) (p : Path) (files : List Path) : Prop where
  mem : ∀ q, q ∈ files ↔
    ∃ name ∈ fs.namesIn p, q = p.child name ∧ fs.isFile q = true ∧ Text.lower q.suffix ∈ schemaSuffixes
  ranked : ∀ q ∈ files, (NaturalKey.of q.name).Ranked
  upwards : files.Pairwise fun q r => nameRank q.name ≤ nameRank r.name
  ties : ∀ q ∈ files, files.filter (fun r => Tied r.name q.name) =
    ((fs.namesIn p).map p.child).filter fun r => r ∈ files ∧ Tied r.name q.name

/-- The schema files that a path stands for: the file itself, or those in the directory. Where the key of a name holds a
nan their order is no more than what sorting makes of it. -/
inductive StandsFor (fs : FileSystem) (p : Path) : List Path → Prop
  | directory {files : List Path} : fs.look p = .ok (some .directory) → Ordered fs p files → StandsFor fs p files
  | unranked : fs.look p = .ok (some .directory) → ¬ Ranked fs schemaSuffixes p →
    StandsFor fs p (filesIn fs schemaSuffixes p)
  | file {text : Option String} : fs.look p = .ok (some (.file text)) → StandsFor fs p [p]

end Discovery

namespace Configuration

/-- The path that a text stands for, seen from a directory. -/
def placed (base : Path) (s : String) : Path :=
  if (Path.of s).isAbsolute then .of s else (base.join (.of s)).resolve []

/-- The schema section gives paths that exist, and schema files that they stand for. -/
inductive Sources (fs : FileSystem) (base : Path) (v : Value) : List Path → List Path → Prop
  | paths {entries : Mapping} {names : List String} {parts : List (List Path)} : v.Maps entries →
    (entries.field "paths").Names names →
    List.Forall₂ (Discovery.StandsFor fs) (names.map (placed base)) parts → parts.flatten ≠ [] →
    Sources fs base v (names.map (placed base)) parts.flatten

/-- The format that is named, in any case of letters; without a name the path decides. -/
inductive Formats (path : Option Path) : Option String → Format → Prop
  | named {name : String} {format : Format} : Text.lower name = format.name → Formats path (some name) format
  | json {p : Path} : path = some p → Text.lower p.suffix = ".json" → Formats path none .json
  | yaml : (∀ p, path = some p → Text.lower p.suffix ≠ ".json") → Formats path none .yaml

/-- The output section, which may be absent, gives a path and a format. -/
inductive Target (base : Path) (v : Value) : Option Path → Format → Prop
  | entries {entries : Mapping} {text? name? : Option String} {format : Format} :
    v = .null ∧ entries = [] ∨ v.Maps entries → (entries.field "path").MaySay text? →
    (entries.field "format").MaySay name? → Formats (text?.map (placed base)) name? format →
    Target base v (text?.map (placed base)) format

/-- The directory of a configuration file. -/
def directory (fs : FileSystem) (path : Path) : Path := (fs.resolve path).parent

/-- The value in the file at a path describes a configuration. -/
inductive Describes (fs : FileSystem) (path : Path) (v : Value) : Configuration → Prop
  | sections {entries : Mapping} {paths files : List Path} {requests : List Request} {outputPath : Option Path}
      {format : Format} :
    v.MapsOrNull entries → Sources fs (directory fs path) (entries.field "schema") paths files →
    (entries.field "filter").AsksAll requests →
    Target (directory fs path) (entries.field "output") outputPath format →
    Describes fs path v ⟨path, paths, files, requests, outputPath, format⟩

/-- The value names a file or directory. -/
inductive NamesPath (v : Value) : String → Prop
  | schema {names : List String} {s : String} :
    ((v.content.field "schema").content.field "paths").Names names → s ∈ names → NamesPath v s
  | output {s : String} : ((v.content.field "output").content.field "path").Says s → NamesPath v s

/-- The path that a text stands for cannot be looked up. -/
inductive LookFails (fs : FileSystem) (base : Path) (s : String) : FileError → Prop
  | misspelled {fault : FileFault} : (Path.of s).isAbsolute = false → (Path.of s).spellingFault? = some fault →
    LookFails fs base s ⟨fault, base.join (.of s)⟩
  | look {e : FileError} : fs.look (placed base s) = .error e → LookFails fs base s e

end Configuration

/-! ## Schema files -/

theorem mapError_bind {ε ε' α β : Type} (g : ε → ε') (x : Except ε α) (f : α → Except ε β) :
    (x >>= f).mapError g = x.mapError g >>= fun a => (f a).mapError g := by
  cases x <;> rfl

/-- A file that is read is there. -/
theorem FileSystem.look_of_read {fs : FileSystem} {p : Path} {text : String} (h : fs.read p = .ok text) :
    ∃ e, fs.look p = .ok (some e) := by
  unfold read at h
  split at h
  · cases h
  · rename_i hplace
    rw [look, hplace]
    split at h
    · cases h
    · cases h
    · cases h
    · rename_i hentry
      exact ⟨_, congrArg Except.ok hentry⟩

namespace Discovery

/-- An error of the discovery as one of the configuration. -/
def Error.toSettings : Error → SettingsError
  | .unreachable e => .unreachable e
  | e => .discovery e

variable {fs : FileSystem} {fails : FileError → Prop}

theorem mem_listed {p q : Path} : q ∈ listed fs schemaSuffixes p ↔
    ∃ name ∈ fs.namesIn p, q = p.child name ∧ fs.isFile q = true ∧ Text.lower q.suffix ∈ schemaSuffixes := by
  have hlower : schemaSuffixes.map Text.lower = schemaSuffixes := by decide +kernel
  rw [listed, List.mem_filter, List.mem_map, hasSuffix, hlower, Bool.and_eq_true, List.contains_iff_mem]
  constructor
  · rintro ⟨⟨name, hname, rfl⟩, hfile⟩
    exact ⟨name, hname, rfl, hfile⟩
  · rintro ⟨name, hname, rfl, hfile⟩
    exact ⟨⟨name, hname, rfl⟩, hfile⟩

theorem Ordered.mem_iff {p q : Path} {files : List Path} (h : Ordered fs p files) :
    q ∈ files ↔ q ∈ listed fs schemaSuffixes p := (h.mem q).trans mem_listed.symm

/-- What is listed and belongs to the files is what is listed of them. -/
theorem listed_eq_filter {p : Path} {files : List Path} (h : ∀ q, q ∈ files ↔ q ∈ listed fs schemaSuffixes p) :
    listed fs schemaSuffixes p = ((fs.namesIn p).map p.child).filter (· ∈ files) := by
  rw [listed]
  refine List.filter_congr fun q hq => ?_
  rw [Bool.eq_iff_iff, decide_eq_true_eq, h, listed, List.mem_filter]
  exact (and_iff_right hq).symm

/-- The files of a rank are listed in their order. -/
theorem Ordered.filter_rank {p : Path} {files : List Path} (h : Ordered fs p files)
    (r : List (WithBot (WithTop ℚ) ⊕ₗ List Nat) ×ₗ Nat) :
    files.filter (fun q => nameRank q.name = r) =
      (listed fs schemaSuffixes p).filter fun q => nameRank q.name = r := by
  by_cases hr : ∃ q ∈ files, nameRank q.name = r
  · obtain ⟨q, hq, rfl⟩ := hr
    have htied : ∀ s ∈ files, Tied s.name q.name ↔ nameRank s.name = nameRank q.name := fun s hs =>
      tied_iff (h.ranked s hs) (h.ranked q hq)
    calc files.filter (fun s => nameRank s.name = nameRank q.name)
        = files.filter (fun s => Tied s.name q.name) := List.filter_congr fun s hs => by simp [htied s hs]
      _ = ((fs.namesIn p).map p.child).filter fun s => s ∈ files ∧ Tied s.name q.name := h.ties q hq
      _ = ((fs.namesIn p).map p.child).filter fun s => s ∈ files ∧ nameRank s.name = nameRank q.name :=
        List.filter_congr fun s _ => by
          by_cases hs : s ∈ files
          · simp [hs, htied s hs]
          · simp [hs]
      _ = (listed fs schemaSuffixes p).filter fun s => nameRank s.name = nameRank q.name := by
        rw [listed_eq_filter fun _ => h.mem_iff, List.filter_filter]
        exact List.filter_congr fun s _ => by simp [Bool.and_comm]
  · have hnone : ∀ q ∈ files, ¬ decide (nameRank q.name = r) = true := fun q hq heq =>
      hr ⟨q, hq, of_decide_eq_true heq⟩
    rw [List.filter_eq_nil_iff.2 hnone, List.filter_eq_nil_iff.2 fun q hq => hnone q (h.mem_iff.2 hq)]

/-- Sorting the listing puts the files in order. -/
theorem ordered_filesIn {p : Path} (h : Ranked fs schemaSuffixes p) :
    Ordered fs p (filesIn fs schemaSuffixes p) := by
  have hmem : ∀ q, q ∈ filesIn fs schemaSuffixes p ↔ q ∈ listed fs schemaSuffixes p := fun q =>
    (naturalSortBy_perm Path.name _).mem_iff
  have hranked : ∀ q ∈ filesIn fs schemaSuffixes p, (NaturalKey.of q.name).Ranked := fun q hq => h q ((hmem q).1 hq)
  refine ⟨fun q => (hmem q).trans mem_listed, hranked, pairwise_naturalSortBy h, fun q hq => ?_⟩
  have htied : ∀ s ∈ listed fs schemaSuffixes p, Tied s.name q.name ↔ nameRank s.name = nameRank q.name := fun s hs =>
    tied_iff (h s hs) (hranked q hq)
  calc (filesIn fs schemaSuffixes p).filter (fun s => Tied s.name q.name)
      = (filesIn fs schemaSuffixes p).filter (fun s => nameRank s.name = nameRank q.name) :=
        List.filter_congr fun s hs => by simp [htied s ((hmem s).1 hs)]
    _ = (listed fs schemaSuffixes p).filter (fun s => nameRank s.name = nameRank q.name) := filter_naturalSortBy h _
    _ = (listed fs schemaSuffixes p).filter fun s => Tied s.name q.name :=
        List.filter_congr fun s hs => by simp [htied s hs]
    _ = ((fs.namesIn p).map p.child).filter fun s => s ∈ filesIn fs schemaSuffixes p ∧ Tied s.name q.name := by
      rw [listed_eq_filter hmem, List.filter_filter]
      exact List.filter_congr fun s _ => by simp [Bool.and_comm]

/-- There is one order only. -/
theorem Ordered.unique {p : Path} {files files' : List Path} (h : Ordered fs p files) (h' : Ordered fs p files') :
    files' = files := by
  refine eq_of_pairwise_of_filter (fun q : Path => nameRank q.name) ?_ ?_ ?_
  · exact h'.upwards
  · exact h.upwards
  · intro r
    exact (h'.filter_rank r).trans (h.filter_rank r).symm

theorem Ordered.isRanked {p : Path} {files : List Path} (h : Ordered fs p files) : Ranked fs schemaSuffixes p :=
  fun q hq => h.ranked q (h.mem_iff.2 hq)

/-- What a directory stands for is what is found in it. -/
theorem standsFor_directory {p : Path} (h : fs.look p = .ok (some .directory)) :
    StandsFor fs p (filesIn fs schemaSuffixes p) := by
  by_cases hr : Ranked fs schemaSuffixes p
  · exact .directory h (ordered_filesIn hr)
  · exact .unranked h hr

theorem StandsFor.unique {p : Path} {files files' : List Path} (h : StandsFor fs p files) (h' : StandsFor fs p files') :
    files' = files := by
  cases h with
  | directory hlook hordered =>
    cases h' with
    | directory _ hordered' => exact hordered.unique hordered'
    | unranked _ hr => exact absurd hordered.isRanked hr
    | file hlook' => cases hlook.symm.trans hlook'
  | unranked hlook hr =>
    cases h' with
    | directory _ hordered' => exact absurd hordered'.isRanked hr
    | unranked => rfl
    | file hlook' => cases hlook.symm.trans hlook'
  | file hlook =>
    cases h' with
    | directory hlook' _ => cases hlook.symm.trans hlook'
    | unranked hlook' _ => cases hlook.symm.trans hlook'
    | file => rfl

theorem settles_expandOne {p : Path} (hfails : ∀ e, fs.look p = .error e → fails e) :
    Settles (StandsFor fs p) fails ((expandOne fs schemaSuffixes p).mapError Error.toSettings) := by
  unfold expandOne
  split
  · rename_i e hlook
    exact .unreachable (hfails e hlook)
  · rename_i hlook
    exact .accepted (standsFor_directory hlook) fun files h => (standsFor_directory hlook).unique h
  · rename_i hlook
    exact .accepted (.file hlook) fun files h => (StandsFor.file hlook).unique h
  · rename_i hlook
    refine .rejected rfl ?_
    rintro files (⟨hlook', -⟩ | ⟨hlook', -⟩ | hlook')
    · cases hlook.symm.trans hlook'
    · cases hlook.symm.trans hlook'
    · cases hlook.symm.trans hlook'

theorem settles_expand {paths : List Path} (hfails : ∀ p ∈ paths, ∀ e, fs.look p = .error e → fails e) :
    Settles (fun files => ∃ parts, List.Forall₂ (StandsFor fs) paths parts ∧ files = parts.flatten) fails
      ((expand fs schemaSuffixes paths).mapError Error.toSettings) := by
  induction paths with
  | nil =>
    refine .accepted ⟨[], .nil, rfl⟩ ?_
    rintro files ⟨parts, hparts, rfl⟩
    cases hparts
    rfl
  | cons p rest ih =>
    rw [List.forall_mem_cons] at hfails
    simp only [expand, mapError_bind]
    refine ((settles_expandOne hfails.1).bind fun files _ => (ih hfails.2).bind fun others _ =>
      .pure (files ++ others)).congr fun files => ?_
    constructor
    · rintro ⟨first, hfirst, others, ⟨parts, hparts, rfl⟩, rfl⟩
      exact ⟨first :: parts, .cons hfirst hparts, rfl⟩
    · rintro ⟨parts, hparts, rfl⟩
      cases hparts with
      | cons hfirst hparts => exact ⟨_, hfirst, _, ⟨_, hparts, rfl⟩, rfl⟩

end Discovery

theorem Format.ofName?_eq_some_iff {s : String} {format : Format} : ofName? s = some format ↔ s = format.name := by
  constructor
  · intro h
    exact (by simpa using List.find?_some h : format.name = s).symm
  · rintro rfl
    cases format <;> rfl

/-! ## Sections -/

namespace Configuration

variable {fs : FileSystem} {base : Path} {v : Value} {fails : FileError → Prop}

theorem settles_located {s : String} (hfails : ∀ e, LookFails fs base s e → fails e) :
    Settles (· = placed base s) fails (located base s) := by
  unfold located placed
  dsimp only
  by_cases habsolute : (Path.of s).isAbsolute
  · rw [if_pos habsolute, if_pos habsolute]
    exact .pure _
  · rw [if_neg habsolute, if_neg habsolute]
    split
    · rename_i fault hfault
      exact .unreachable (hfails _ (.misspelled (by simpa using habsolute) hfault))
    · exact .pure _

theorem settles_mapM_located {names : List String} (hfails : ∀ s ∈ names, ∀ e, LookFails fs base s e → fails e) :
    Settles (· = names.map (placed base)) fails (names.mapM (located base)) := by
  induction names with
  | nil => exact .pure _
  | cons s rest ih =>
    rw [List.forall_mem_cons] at hfails
    rw [List.mapM_cons]
    refine ((settles_located hfails.1).bind fun p _ => (ih hfails.2).bind fun others _ => .pure (p :: others)).congr
      fun paths => ?_
    simp

theorem settles_schemaPaths
    (hfails : ∀ names s e, (v.content.field "paths").Names names → s ∈ names → LookFails fs base s e → fails e) :
    Settles (fun paths => ∃ entries, v.Maps entries ∧ ∃ names, (entries.field "paths").Names names ∧
      paths = names.map (placed base)) fails (schemaPaths base v) := by
  unfold schemaPaths
  refine (v.settles_section? _).bind fun entries hentries => ?_
  rw [Value.content_of_maps hentries] at hfails
  exact Value.settles_names _ rfl fun names hnames =>
    settles_mapM_located fun s hs e he => hfails names s e hnames hs he

/-- The schema section, one step after the other. -/
theorem schemaSection_eq : schemaSection fs base v = schemaPaths base v >>= fun paths =>
    ((Discovery.expand fs Discovery.schemaSuffixes paths).mapError Discovery.Error.toSettings) >>= fun files =>
      if files.isEmpty then .error .noSchemaFile else .ok (paths, files) := by
  unfold schemaSection
  congr 1
  funext paths
  cases Discovery.expand fs Discovery.schemaSuffixes paths with
  | ok files => rfl
  | error e => cases e <;> rfl

theorem settles_schemaSection
    (hfails : ∀ names s e, (v.content.field "paths").Names names → s ∈ names → LookFails fs base s e → fails e) :
    Settles (fun found => Sources fs base v found.1 found.2) fails (schemaSection fs base v) := by
  rw [schemaSection_eq]
  have hlook : ∀ paths, (∃ entries, v.Maps entries ∧ ∃ names, (entries.field "paths").Names names ∧
      paths = names.map (placed base)) → ∀ p ∈ paths, ∀ e, fs.look p = .error e → fails e := by
    rintro _ ⟨entries, hentries, names, hnames, rfl⟩ p hp e hlook
    obtain ⟨s, hs, rfl⟩ := List.mem_map.1 hp
    rw [← Value.content_of_maps hentries] at hnames
    exact hfails names s e hnames hs (.look hlook)
  refine ((settles_schemaPaths hfails).bind fun paths hpaths =>
    (Discovery.settles_expand (hlook paths hpaths)).bind fun files _ =>
      .check rfl fun _ => .pure (paths, files)).congr ?_
  rintro ⟨paths, files⟩
  constructor
  · rintro ⟨_, ⟨entries, hentries, names, hnames, rfl⟩, _, ⟨parts, hparts, rfl⟩, hne, ⟨⟩⟩
    exact .paths hentries hnames hparts hne
  · rintro ⟨hentries, hnames, hparts, hne⟩
    exact ⟨_, ⟨_, hentries, _, hnames, rfl⟩, _, ⟨_, hparts, rfl⟩, hne, rfl⟩

theorem settles_request (label : String) (v : Value) : Settles v.Asks fails (request label v) := by
  unfold request
  refine ((v.settles_section? label).bind fun entries _ =>
    ((entries.field "namespace").settles_requiredText s!"{label}.namespace").bind fun owner _ =>
      Value.settles_names (v := entries.field "types") s!"{label}.types" (e := .noTypes label) rfl fun names _ =>
        .pure (Request.of owner names)).congr fun r => ?_
  constructor
  · rintro ⟨entries, hentries, owner, howner, names, hnames, rfl⟩
    exact .entry hentries howner hnames
  · rintro ⟨hentries, howner, hnames⟩
    exact ⟨_, hentries, _, howner, _, hnames, rfl⟩

/-- The requests stand for the entries one by one. -/
theorem settles_requestsFrom (index : Nat) (items : List Value) :
    Settles (List.Forall₂ Value.Asks items) fails (requestsFrom index items) := by
  induction items generalizing index with
  | nil => exact .accepted .nil fun requests h => List.forall₂_nil_left_iff.1 h
  | cons v rest ih =>
    refine ((settles_request s!"filter[{index}]" v).bind fun first _ => (ih (index + 1)).bind fun others _ =>
      .pure (first :: others)).congr fun requests => ?_
    constructor
    · rintro ⟨first, hfirst, others, hothers, rfl⟩
      exact .cons hfirst hothers
    · rintro (_ | ⟨hfirst, hothers⟩)
      exact ⟨_, hfirst, _, hothers, rfl⟩

end Configuration

namespace Value

variable {v w : Value}

/-- What an entry asks for depends on the outermost layer of it. -/
theorem Asks.of_unrolled {request : Request} (h : v.Asks request) (hv : v.unrolled = w.unrolled) : w.Asks request := by
  obtain ⟨⟨mark, hentries⟩, howner, hnames⟩ := h
  exact .entry ⟨mark, hv ▸ hentries⟩ howner hnames

theorem Asks.maps {request : Request} (h : v.Asks request) : ∃ entries, v.Maps entries := by
  cases h with
  | entry hentries _ _ => exact ⟨_, hentries⟩

/-- The filter asks with its items one by one. -/
theorem asksAll_iff {requests : List Request} : v.AsksAll requests ↔
    Configuration.filterItems v ≠ [] ∧ List.Forall₂ Asks (Configuration.filterItems v) requests := by
  constructor
  · rintro (hasks | ⟨⟨mark, hlist⟩, hne, hasks⟩)
    · obtain ⟨entries, mark, hentries⟩ := hasks.maps
      simp only [Configuration.filterItems, hentries]
      exact ⟨List.cons_ne_nil _ _, .cons (hasks.of_unrolled hentries) .nil⟩
    · simp only [Configuration.filterItems, hlist]
      exact ⟨hne, hasks⟩
  · rintro ⟨hne, hasks⟩
    generalize hitems : Configuration.filterItems v = items at hne hasks
    unfold Configuration.filterItems at hitems
    split at hitems <;> subst hitems
    · rename_i mark items hlist
      exact .several ⟨mark, hlist⟩ hne hasks
    · rename_i octets hbytes
      -- octets are integers, which ask for nothing
      cases octets with
      | nil => exact absurd rfl hne
      | cons octet rest =>
        cases hasks with
        | cons hfirst _ =>
          obtain ⟨entries, mark, hentries⟩ := hfirst.maps
          cases hentries
    · rename_i mark entries hentries
      cases hasks with
      | cons hfirst hnone =>
        cases hnone
        exact .one (hfirst.of_unrolled hentries.symm)
    · exact absurd rfl hne

end Value

namespace Configuration

variable {fs : FileSystem} {base : Path} {v : Value} {fails : FileError → Prop}

theorem settles_filterSection (v : Value) : Settles v.AsksAll fails (filterSection v) := by
  unfold filterSection
  split
  · exact .rejected rfl fun requests h => (Value.asksAll_iff.1 h).1 rfl
  · exact (Settles.check rfl fun _ => settles_requestsFrom 0 _).congr fun requests => Value.asksAll_iff.symm

theorem settles_outputEntries (v : Value) :
    Settles (fun entries => v = .null ∧ entries = [] ∨ v.Maps entries) fails (outputEntries v) := by
  unfold outputEntries
  split
  · refine .accepted (.inl ⟨rfl, rfl⟩) ?_
    rintro entries (⟨-, rfl⟩ | ⟨mark, hentries⟩)
    · rfl
    · cases hentries
  · rename_i hnull
    exact (v.settles_section? _).congr fun entries => (or_iff_right fun h => hnull h.1).symm

theorem formats_suggestedFormat (path : Option Path) : Formats path none (suggestedFormat path) := by
  unfold suggestedFormat
  split
  · rename_i hjson
    obtain ⟨p, rfl, hp⟩ := (Option.any_eq_true _ _).1 hjson
    exact .json rfl (by simpa using hp)
  · rename_i hnot
    refine .yaml ?_
    rintro p rfl hp
    exact hnot (by simp [hp])

theorem Formats.unique {path : Option Path} {name? : Option String} {format format' : Format}
    (h : Formats path name? format) (h' : Formats path name? format') : format' = format := by
  cases h with
  | named hname =>
    cases h' with
    | named hname' =>
      have hsame := hname.symm.trans hname'
      revert hsame
      cases format <;> cases format' <;> decide
  | json hpath hsuffix =>
    cases h' with
    | json => rfl
    | yaml hnot => exact absurd hsuffix (hnot _ hpath)
  | yaml hnot =>
    cases h' with
    | json hpath hsuffix => exact absurd hsuffix (hnot _ hpath)
    | yaml => rfl

theorem settles_format (path : Option Path) (name? : Option String) :
    Settles (fun found => found.1 = path ∧ Formats path name? found.2) fails (match name? with
      | none => .ok (path, suggestedFormat path)
      | some name => match Format.ofName? (Text.lower name) with
        | some format => .ok (path, format)
        | none => .error .unknownFormat) := by
  have haccepted : ∀ {format}, Formats path name? format →
      Settles (fun found : Option Path × Format => found.1 = path ∧ Formats path name? found.2) fails
        (.ok (path, format)) := by
    refine fun hformat => .accepted ⟨rfl, hformat⟩ ?_
    rintro ⟨_, format'⟩ ⟨rfl, h⟩
    exact Prod.ext rfl (hformat.unique h)
  split
  · exact haccepted (formats_suggestedFormat path)
  · split
    · rename_i hname
      exact haccepted (.named (Format.ofName?_eq_some_iff.1 hname))
    · rename_i hnone
      refine .rejected rfl ?_
      rintro found ⟨-, ⟨hname⟩⟩
      cases hnone.symm.trans (Format.ofName?_eq_some_iff.2 hname)

theorem settles_mapM_located? {w : Value} {text? : Option String} (h : w.MaySay text?)
    (hfails : ∀ s e, w.Says s → LookFails fs base s e → fails e) :
    Settles (· = text?.map (placed base)) fails (text?.mapM (located base)) := by
  cases h with
  | null => exact .pure _
  | blank _ => exact .pure _
  | @text _ s hsays =>
    exact ((settles_located fun e => hfails s e hsays).bind fun p _ => .pure (some p)).congr fun path => by simp

theorem settles_outputSection
    (hfails : ∀ s e, (v.content.field "path").Says s → LookFails fs base s e → fails e) :
    Settles (fun found => Target base v found.1 found.2) fails (outputSection base v) := by
  have hpath : ∀ {entries}, v = .null ∧ entries = [] ∨ v.Maps entries → ∀ s e, (Mapping.field "path" entries).Says s →
      LookFails fs base s e → fails e := by
    rintro entries hentries s e hsays
    have hopened : v.MapsOrNull entries :=
      hentries.imp_left (And.imp_left (congrArg Value.unrolled))
    rw [← Value.content_of_mapsOrNull hopened] at hsays
    exact hfails s e hsays
  unfold outputSection
  refine ((settles_outputEntries v).bind fun entries hentries =>
    (Value.settles_optionalText "output.path" _).bind fun text? htext =>
      (settles_mapM_located? htext (hpath hentries)).bind fun path _ =>
        (Value.settles_optionalText "output.format" _).bind fun name? _ => settles_format path name?).congr ?_
  rintro ⟨path, format⟩
  constructor
  · rintro ⟨entries, hentries, text?, htext, _, rfl, name?, hname, rfl, hformat⟩
    exact .entries hentries htext hname hformat
  · rintro ⟨hentries, htext, hname, hformat⟩
    exact ⟨_, hentries, _, htext, _, rfl, _, hname, rfl, hformat⟩

/-! ## The whole -/

theorem settles_rootEntries (v : Value) :
    Settles (fun entries => v.MapsOrNull entries) fails (rootEntries v) := by
  unfold rootEntries
  split
  · rename_i hnull
    refine .accepted (.inl ⟨hnull, rfl⟩) ?_
    rintro entries (⟨-, rfl⟩ | ⟨mark, hentries⟩)
    · rfl
    · cases hnull.symm.trans hentries
  · rename_i mark entries hmapping
    refine .accepted (.inr ⟨mark, hmapping⟩) ?_
    rintro entries' (⟨hnull, -⟩ | ⟨mark', hentries⟩)
    · cases hnull.symm.trans hmapping
    · cases hmapping.symm.trans hentries
      rfl
  · rename_i hnull hmapping
    refine .rejected rfl ?_
    rintro entries (⟨h, -⟩ | ⟨mark, hentries⟩)
    · exact hnull h
    · exact hmapping mark entries hentries

theorem settles_ofValue {path : Path}
    (hfails : ∀ s e, NamesPath v s → LookFails fs (directory fs path) s e → fails e) :
    Settles (Describes fs path v) fails (ofValue fs path v) := by
  have hsources : ∀ {entries}, v.MapsOrNull entries → ∀ names s e,
      ((Mapping.field "schema" entries).content.field "paths").Names names → s ∈ names →
      LookFails fs (directory fs path) s e → fails e := by
    intro entries hentries names s e hnames hs
    rw [← Value.content_of_mapsOrNull hentries] at hnames
    exact hfails s e (.schema hnames hs)
  have htarget : ∀ {entries}, v.MapsOrNull entries → ∀ s e,
      ((Mapping.field "output" entries).content.field "path").Says s → LookFails fs (directory fs path) s e →
      fails e := by
    intro entries hentries s e hsays
    rw [← Value.content_of_mapsOrNull hentries] at hsays
    exact hfails s e (.output hsays)
  unfold ofValue
  refine ((settles_rootEntries v).bind fun entries hentries =>
    (settles_schemaSection (hsources hentries)).bind fun found _ =>
      (settles_filterSection _).bind fun requests _ =>
        (settles_outputSection (htarget hentries)).bind fun output _ =>
          .pure (Configuration.mk path found.1 found.2 requests output.1 output.2)).congr fun c => ?_
  constructor
  · rintro ⟨entries, hentries, found, hfound, requests, hrequests, output, houtput, rfl⟩
    exact .sections hentries hfound hrequests houtput
  · rintro ⟨hentries, hfound, hrequests, houtput⟩
    exact ⟨_, hentries, (_, _), hfound, _, hrequests, (_, _), houtput, rfl⟩

theorem settles_load {path : Path} {text : String} (hread : fs.read path = .ok text)
    (hparse : Yaml.parse 0 text = .ok v) :
    Settles (Describes fs path v) (fun e => ∃ s, NamesPath v s ∧ LookFails fs (directory fs path) s e)
      (load fs path) := by
  obtain ⟨entry, hlook⟩ := FileSystem.look_of_read hread
  unfold load
  rw [hlook]
  dsimp only
  rw [hread]
  dsimp only
  rw [hparse]
  exact settles_ofValue fun s e hs he => ⟨s, hs, he⟩

/-- **Which configurations are accepted**: a file with a value is read as the configuration that the value describes,
and with an error that has a message if it describes none, unless a path that it names cannot be looked up. -/
theorem load_iff_describes {path : Path} {text : String} (hread : fs.read path = .ok text)
    (hparse : Yaml.parse 0 text = .ok v)
    (hlooks : ∀ s e, NamesPath v s → LookFails fs (directory fs path) s e → load fs path ≠ .error (.unreachable e)) :
    (∀ c, load fs path = .ok c ↔ Describes fs path v c) ∧
      ((∀ c, ¬ Describes fs path v c) → ∃ e message, load fs path = .error e ∧ e.message? = some message) := by
  have hsettles := settles_load hread hparse
  generalize load fs path = result at hsettles hlooks ⊢
  cases hsettles with
  | @accepted c hdescribes hunique =>
    refine ⟨fun c' => ⟨?_, fun h => by rw [hunique c' h]⟩, fun hnone => absurd hdescribes (hnone c)⟩
    rintro ⟨⟩
    exact hdescribes
  | @rejected e hmessage hnone =>
    obtain ⟨message, hmessage⟩ := Option.isSome_iff_exists.1 hmessage
    exact ⟨fun c => iff_of_false (by simp) (hnone c), fun _ => ⟨e, message, rfl, hmessage⟩⟩
  | unreachable he =>
    obtain ⟨s, hs, he⟩ := he
    exact absurd rfl (hlooks s _ hs he)

/-! ### A list of entries, with texts to be trimmed -/

/-- The text of a configuration. -/
def trimmedText : String :=
  "schema: \x7bpaths: [shop.yaml, ' ']\x7d\n" ++ "filter: [\x7bnamespace: ' shop', types: [Order, '']\x7d]\n"
    ++ "output: \x7bpath: small.json\x7d\n"

/-- A directory with it, and with its schema file. -/
def trimmedFiles : FileSystem :=
  { home := [], program := ["opt"], limit := none
    entries := [(["pruner.yaml"], .file (some trimmedText)), (["shop.yaml"], .file (some ""))] }

/-- What the text denotes. -/
def trimmedValue : Value := .mapping none
  [(.text "schema", .mapping none [(.text "paths", .list none [.text "shop.yaml", .text " "])]),
   (.text "filter", .list none [.mapping none [(.text "namespace", .text " shop"),
     (.text "types", .list none [.text "Order", .text ""])]]),
   (.text "output", .mapping none [(.text "path", .text "small.json")])]

theorem load_iff_describes_trimmed : trimmedFiles.read (.of "pruner.yaml") = .ok trimmedText ∧
    Yaml.parse 0 trimmedText = .ok trimmedValue ∧ Describes trimmedFiles (.of "pruner.yaml") trimmedValue
      ⟨.of "pruner.yaml", [⟨1, ["shop.yaml"]⟩], [⟨1, ["shop.yaml"]⟩], [⟨"shop", ["Order"]⟩], some ⟨1, ["small.json"]⟩,
        .json⟩ := by
  have hread : trimmedFiles.read (.of "pruner.yaml") = .ok trimmedText := by decide +kernel
  have hparse : Yaml.parse 0 trimmedText = .ok trimmedValue := by decide +kernel
  have hload : load trimmedFiles (.of "pruner.yaml") = .ok ⟨.of "pruner.yaml", [⟨1, ["shop.yaml"]⟩],
      [⟨1, ["shop.yaml"]⟩], [⟨"shop", ["Order"]⟩], some ⟨1, ["small.json"]⟩, .json⟩ := by decide +kernel
  refine ⟨hread, hparse, ((load_iff_describes hread hparse ?_).1 _).1 hload⟩
  intro s e _ _
  rw [hload]
  nofun

end Configuration

end SchemaClosure
