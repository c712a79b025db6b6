import SchemaClosure.Discovery.Files
import SchemaClosure.Proofs.Discovery.NaturalOrder
import SchemaClosure.Proofs.Schema.Declaration
import SchemaClosure.Run.Project

/-!
# Discovery under another listing

A file system lists what stands in its directories in some order. Nothing that is asked of a path depends on it
(`FileSystem.Relisted.locate`, `read`), and the schema files of a directory are found in the same order under every
listing iff no two of their names tie (`Discovery.discover_relisted_iff`). Two names tie if they differ in their
extensions, in case or in the spelling of numbers only, so `shop.json` and `shop.yaml` stand in the order of the listing.

What follows carries over to the files of a configuration, and to the documents that are read from them
(`Configuration.load_relisted`, `SchemaDocument.loadAll_relisted`).
-/

namespace SchemaClosure

/-! ## File systems -/

namespace FileSystem

/-- The same directories and files, listed in another order. -/
structure Relisted (fs' fs : FileSystem) : Prop where
  home : fs'.home = fs.home
  entries : fs'.entries.Perm fs.entries

/-- No place is taken twice. -/
def Keyed (fs : FileSystem) : Prop := fs.entries.Pairwise fun e f => e.1 ≠ f.1

theorem lookup_eq_some_iff {entries : List (List String × Entry)} (hn : entries.Pairwise fun e f => e.1 ≠ f.1)
    {place : List String} {e : Entry} : entries.lookup place = some e ↔ (place, e) ∈ entries := by
  induction entries with
  | nil => simp
  | cons f entries ih =>
    obtain ⟨q, f⟩ := f
    rw [List.pairwise_cons] at hn
    rw [List.lookup_cons, List.mem_cons, Prod.mk.injEq]
    by_cases hq : place = q
    · subst hq
      have habsent : (place, e) ∉ entries := fun he => hn.1 _ he rfl
      simp [habsent, eq_comm]
    · simp [beq_eq_false_iff_ne.2 hq, hq, ih hn.2]

theorem lookup_perm {entries entries' : List (List String × Entry)} (hp : entries'.Perm entries)
    (hn : entries.Pairwise fun e f => e.1 ≠ f.1) (place : List String) :
    entries'.lookup place = entries.lookup place := by
  have hn' : entries'.Pairwise fun e f => e.1 ≠ f.1 := hp.symm.pairwise hn fun h => h.symm
  apply Option.ext
  intro e
  rw [lookup_eq_some_iff hn, lookup_eq_some_iff hn', hp.mem_iff]

namespace Relisted

variable {fs fs' : FileSystem}

theorem entryAt? (h : fs'.Relisted fs) (hk : fs.Keyed) (place : List String) :
    fs'.entryAt? place = fs.entryAt? place := by
  simp [FileSystem.entryAt?, lookup_perm h.entries hk]

theorem follow (h : fs'.Relisted fs) (hk : fs.Keyed) (place names : List String) :
    fs'.follow place names = fs.follow place names := by
  induction names generalizing place with
  | nil => rfl
  | cons name names ih => simp only [FileSystem.follow, h.entryAt? hk, ih]

/-- A path denotes the same place. -/
theorem locate (h : fs'.Relisted fs) (hk : fs.Keyed) (p : Path) : fs'.locate p = fs.locate p := by
  simp only [FileSystem.locate, h.home, h.follow hk]

theorem look (h : fs'.Relisted fs) (hk : fs.Keyed) (p : Path) : fs'.look p = fs.look p := by
  simp only [FileSystem.look, h.locate hk, h.entryAt? hk]

theorem isFile (h : fs'.Relisted fs) (hk : fs.Keyed) (p : Path) : fs'.isFile p = fs.isFile p := by
  simp only [FileSystem.isFile, FileSystem.entry?, h.locate hk, h.entryAt? hk]

theorem read (h : fs'.Relisted fs) (hk : fs.Keyed) (p : Path) : fs'.read p = fs.read p := by
  simp only [FileSystem.read, h.locate hk, h.entryAt? hk]

theorem resolve (h : fs'.Relisted fs) (p : Path) : fs'.resolve p = fs.resolve p := by
  simp only [FileSystem.resolve, h.home]

/-- A directory holds the same names. -/
theorem namesIn (h : fs'.Relisted fs) (hk : fs.Keyed) (p : Path) : (fs'.namesIn p).Perm (fs.namesIn p) := by
  rw [FileSystem.namesIn, FileSystem.namesIn, h.locate hk]
  cases fs.locate p with
  | error fault => exact .refl _
  | ok place => exact h.entries.filterMap _

end Relisted

/-- The name of an entry in the directory at a place. -/
def nameIn? (place : List String) (e : List String × Entry) : Option String :=
  if e.1 ≠ [] && e.1.dropLast = place then e.1.getLast? else none

theorem nameIn?_eq_some_iff {place : List String} {e : List String × Entry} {name : String} :
    nameIn? place e = some name ↔ e.1 = place ++ [name] := by
  rw [nameIn?]
  constructor
  · intro h
    split at h
    · rename_i hplace
      simp only [Bool.and_eq_true, decide_eq_true_eq] at hplace
      rw [← hplace.2, List.dropLast_append_getLast? name h]
    · cases h
  · intro h
    simp [h]

theorem namesAt_eq (fs : FileSystem) (place : List String) : fs.namesAt place = fs.entries.filterMap (nameIn? place) := rfl

theorem nodup_namesAt {fs : FileSystem} (hk : fs.Keyed) (place : List String) : (fs.namesAt place).Nodup := by
  rw [namesAt_eq]
  refine List.Pairwise.filterMap _ (fun e f hne m hm n hn hmn => hne ?_) hk
  rw [nameIn?_eq_some_iff.1 hm, nameIn?_eq_some_iff.1 hn, hmn]

end FileSystem

/-! ## Directories -/

namespace Path

theorem child_inj {p : Path} {m n : String} : p.child m = p.child n ↔ m = n := by simp [child]

end Path

namespace Discovery

/-- The schema files of a directory as they are listed. -/
def listed (fs : FileSystem) (suffixes : List String) (directory : Path) : List Path :=
  ((fs.namesIn directory).map directory.child).filter fun p => fs.isFile p && hasSuffix suffixes p

theorem filesIn_eq (fs : FileSystem) (suffixes : List String) (directory : Path) :
    filesIn fs suffixes directory = naturalSortBy Path.name (listed fs suffixes directory) := rfl

/-- All schema files of a directory can be ranked by their names. -/
def Ranked (fs : FileSystem) (suffixes : List String) (directory : Path) : Prop :=
  ∀ p ∈ listed fs suffixes directory, (NaturalKey.of p.name).Ranked

/-- The names of no two schema files of a directory tie. -/
def Untied (fs : FileSystem) (suffixes : List String) (directory : Path) : Prop :=
  (listed fs suffixes directory).Pairwise fun p q => ¬ Tied p.name q.name

variable {fs fs' : FileSystem} {suffixes : List String} {directory : Path}

theorem listed_perm (h : fs'.Relisted fs) (hk : fs.Keyed) (suffixes : List String) (directory : Path) :
    (listed fs' suffixes directory).Perm (listed fs suffixes directory) := by
  simp only [listed, h.isFile hk]
  exact ((h.namesIn hk directory).map _).filter _

/-- The schema files of a directory are the same in the same order. -/
theorem filesIn_relisted (h : fs'.Relisted fs) (hk : fs.Keyed) (hr : Ranked fs suffixes directory)
    (ht : Untied fs suffixes directory) : filesIn fs' suffixes directory = filesIn fs suffixes directory := by
  rw [filesIn_eq, filesIn_eq]
  exact naturalSortBy_eq_of_perm (listed_perm h hk suffixes directory) hr ht

theorem discover_relisted (h : fs'.Relisted fs) (hk : fs.Keyed) (hr : Ranked fs suffixes directory)
    (ht : Untied fs suffixes directory) : discover fs' suffixes directory = discover fs suffixes directory := by
  simp only [discover, h.look hk, filesIn_relisted h hk hr ht]

theorem nodup_listed (hk : fs.Keyed) (suffixes : List String) (directory : Path) :
    (listed fs suffixes directory).Nodup := by
  refine List.Nodup.filter _ (List.Nodup.map (fun m n h => Path.child_inj.1 h) ?_)
  rw [FileSystem.namesIn]
  cases fs.locate directory with
  | error fault => exact .nil
  | ok place => exact FileSystem.nodup_namesAt hk place

/-- Two schema files can be the first two of the listing, in either order. -/
theorem exists_relisted_cons_cons (hk : fs.Keyed) {p q : Path} (hp : p ∈ listed fs suffixes directory)
    (hq : q ∈ listed fs suffixes directory) (hne : p ≠ q) :
    ∃ (fs₁ fs₂ : FileSystem) (rest : List Path), fs₁.Relisted fs ∧ fs₂.Relisted fs ∧
      listed fs₁ suffixes directory = p :: q :: rest ∧ listed fs₂ suffixes directory = q :: p :: rest := by
  rw [listed, FileSystem.namesIn] at hp hq
  cases hplace : fs.locate directory with
  | error fault => simp [hplace] at hp
  | ok place =>
    simp only [hplace, FileSystem.namesAt_eq, List.mem_filter, List.mem_map, List.mem_filterMap] at hp hq
    obtain ⟨⟨m, ⟨e, he, hm⟩, rfl⟩, hpfile⟩ := hp
    obtain ⟨⟨n, ⟨f, hf, hn⟩, rfl⟩, hqfile⟩ := hq
    have hef : e ≠ f := by
      rintro rfl
      exact hne (by rw [Option.some.inj (hm.symm.trans hn)])
    obtain ⟨rest, hperm⟩ := exists_perm_cons_cons he hf hef
    have h₁ : FileSystem.Relisted { fs with entries := e :: f :: rest } fs := ⟨rfl, hperm⟩
    have h₂ : FileSystem.Relisted { fs with entries := f :: e :: rest } fs := ⟨rfl, (List.Perm.swap e f rest).trans hperm⟩
    refine ⟨_, _, ((rest.filterMap (FileSystem.nameIn? place)).map directory.child).filter
      fun p => fs.isFile p && hasSuffix suffixes p, h₁, h₂, ?_, ?_⟩
    · simp [listed, h₁.isFile hk, FileSystem.namesIn, h₁.locate hk, hplace, FileSystem.namesAt_eq, hm, hn, hpfile,
        hqfile]
    · simp [listed, h₂.isFile hk, FileSystem.namesIn, h₂.locate hk, hplace, FileSystem.namesAt_eq, hm, hn, hpfile,
        hqfile]

/-- **A directory has the same schema files in the same order under every listing** iff no two of their names tie. -/
theorem discover_relisted_iff (hk : fs.Keyed) (hr : Ranked fs suffixes directory)
    (hdirectory : fs.look directory = .ok (some .directory)) :
    (∀ fs' : FileSystem, fs'.Relisted fs → discover fs' suffixes directory = discover fs suffixes directory) ↔
      Untied fs suffixes directory := by
  constructor
  · intro hall
    refine (nodup_listed hk suffixes directory).pairwise_of_forall_ne fun p hp q hq hne htied => ?_
    obtain ⟨fs₁, fs₂, rest, h₁, h₂, hlisted₁, hlisted₂⟩ := exists_relisted_cons_cons hk hp hq hne
    have hsame := (hall fs₁ h₁).trans (hall fs₂ h₂).symm
    simp only [discover, h₁.look hk, h₂.look hk, hdirectory, Except.ok.injEq, filesIn_eq] at hsame
    have hperm := listed_perm h₁ hk suffixes directory
    rw [hlisted₁] at hperm hsame
    rw [hlisted₂] at hsame
    exact naturalSortBy_swap_ne (hperm.nodup_iff.2 (nodup_listed hk suffixes directory))
      (fun u hu => hr u (hperm.subset hu)) htied hsame
  · exact fun ht fs' h => discover_relisted h hk hr ht

theorem expand_relisted {paths : List Path} (h : fs'.Relisted fs) (hk : fs.Keyed)
    (hr : ∀ p ∈ paths, Ranked fs suffixes p) (ht : ∀ p ∈ paths, Untied fs suffixes p) :
    expand fs' suffixes paths = expand fs suffixes paths := by
  induction paths with
  | nil => rfl
  | cons p rest ih =>
    rw [List.forall_mem_cons] at hr ht
    have hone : expandOne fs' suffixes p = expandOne fs suffixes p := by
      simp only [expandOne, h.look hk, filesIn_relisted h hk hr.1 ht.1]
    rw [expand, expand, hone, ih hr.2 ht.2]

end Discovery

/-! ## Configurations and documents -/

theorem SchemaDocument.loadAll_relisted {fs fs' : FileSystem} (h : fs'.Relisted fs) (hk : fs.Keyed) (number : Nat)
    (files : List Path) : loadAll fs' number files = loadAll fs number files := by
  induction files generalizing number with
  | nil => rfl
  | cons p rest ih =>
    have hload : load fs' number p = load fs number p := by simp only [load, h.look hk, h.read hk]
    rw [loadAll, loadAll, hload, ih]

namespace Configuration

variable {fs fs' : FileSystem}

theorem schemaSection_relisted (h : fs'.Relisted fs) (hk : fs.Keyed) {base : Path} {v : Value}
    {paths files : List Path} (hsection : schemaSection fs base v = .ok (paths, files))
    (hr : ∀ p ∈ paths, Discovery.Ranked fs Discovery.schemaSuffixes p)
    (ht : ∀ p ∈ paths, Discovery.Untied fs Discovery.schemaSuffixes p) :
    schemaSection fs' base v = .ok (paths, files) := by
  unfold schemaSection at hsection ⊢
  simp only [bind_eq_ok_iff] at hsection ⊢
  obtain ⟨spelled, hspelled, hexpand⟩ := hsection
  refine ⟨spelled, hspelled, ?_⟩
  have heq : spelled = paths := by
    split at hexpand
    · cases hexpand
    · cases hexpand
    · split at hexpand
      · cases hexpand
      · cases hexpand
        rfl
  subst heq
  rwa [Discovery.expand_relisted h hk hr ht]

/-- **A configuration names the same files in the same order under every listing** if no two schema files in one of its
directories have names that tie. -/
theorem load_relisted (h : fs'.Relisted fs) (hk : fs.Keyed) {path : Path} {c : Configuration}
    (hload : load fs path = .ok c) (hr : ∀ p ∈ c.paths, Discovery.Ranked fs Discovery.schemaSuffixes p)
    (ht : ∀ p ∈ c.paths, Discovery.Untied fs Discovery.schemaSuffixes p) : load fs' path = .ok c := by
  simp only [load, h.look hk, h.read hk] at hload ⊢
  split at hload <;> try cases hload
  split at hload <;> try cases hload
  split at hload <;> try cases hload
  unfold ofValue at hload ⊢
  simp only [bind_eq_ok_iff, h.resolve] at hload ⊢
  obtain ⟨content, hcontent, ⟨paths, files⟩, hsection, requests, hrequests, ⟨output, format⟩, houtput, hc⟩ := hload
  cases hc
  exact ⟨content, hcontent, (paths, files), schemaSection_relisted h hk hsection hr ht, requests, hrequests,
    (output, format), houtput, rfl⟩

end Configuration

/-! ## What the listing settles -/

/-- **What the order of the listing settles**: which of two names that tie comes first, and nothing else. Listings of the
same names agree, once sorted, up to names that tie, and all of them are sorted to one list iff no two names tie. So it
is for the schema files of a directory, and for the documents of a configuration as they are merged. -/
theorem listing_settles_ties {names : List String} (hn : names.Nodup) (hr : ∀ n ∈ names, (NaturalKey.of n).Ranked)
    {fs : FileSystem} (hk : fs.Keyed) :
    (∀ listing : List String, listing.Perm names →
      List.Forall₂ Tied (naturalSortBy id listing) (naturalSortBy id names)) ∧
    ((∀ listing : List String, listing.Perm names → naturalSortBy id listing = naturalSortBy id names) ↔
      names.Pairwise fun a b => ¬ Tied a b) ∧
    (∀ suffixes directory, fs.look directory = .ok (some .directory) → Discovery.Ranked fs suffixes directory →
      ((∀ fs' : FileSystem, fs'.Relisted fs →
        Discovery.discover fs' suffixes directory = Discovery.discover fs suffixes directory) ↔
        Discovery.Untied fs suffixes directory)) ∧
    ∀ fs' : FileSystem, fs'.Relisted fs → ∀ path c, Configuration.load fs path = .ok c →
      (∀ p ∈ c.paths, Discovery.Ranked fs Discovery.schemaSuffixes p) →
      (∀ p ∈ c.paths, Discovery.Untied fs Discovery.schemaSuffixes p) →
      Configuration.load fs' path = .ok c ∧
        SchemaDocument.loadAll fs' 0 c.files = SchemaDocument.loadAll fs 0 c.files := by
  refine ⟨fun listing hp => forall₂_tied_of_perm hp hr, naturalSortBy_listing_iff hn hr, ?_, ?_⟩
  · intro suffixes directory hdirectory hranked
    exact Discovery.discover_relisted_iff hk hranked hdirectory
  · intro fs' h path c hload hranked huntied
    exact ⟨Configuration.load_relisted h hk hload hranked huntied, SchemaDocument.loadAll_relisted h hk 0 c.files⟩

/-- Two files whose names do not tie: `V2.yaml` comes before `v10.yaml`. -/
def versions : FileSystem :=
  { home := [], program := ["opt"], limit := none
    entries := [(["v10.yaml"], .file (some "")), (["V2.yaml"], .file (some ""))] }

theorem listing_settles_ties_versions :
    (∀ listing : List String, listing.Perm ["v10.yaml", "V2.yaml"] →
      naturalSortBy id listing = naturalSortBy id ["v10.yaml", "V2.yaml"]) ∧
    ∀ fs' : FileSystem, fs'.Relisted versions → Discovery.discover fs' Discovery.schemaSuffixes (.of ".")
      = Discovery.discover versions Discovery.schemaSuffixes (.of ".") := by
  have hn : ["v10.yaml", "V2.yaml"].Nodup := by decide
  have hr : ∀ n ∈ ["v10.yaml", "V2.yaml"], (NaturalKey.of n).Ranked := by decide +kernel
  have hk : versions.Keyed := by
    unfold FileSystem.Keyed
    decide +kernel
  obtain ⟨-, hsorts, hdirectories, -⟩ := listing_settles_ties hn hr hk
  refine ⟨hsorts.2 (by decide +kernel), (hdirectories _ _ (by decide +kernel) ?_).2 ?_⟩
  · unfold Discovery.Ranked
    decide +kernel
  · unfold Discovery.Untied
    decide +kernel

/-- The extension is no part of a key: two names that differ in it keep the order in which they are listed. -/
theorem listing_settles_shop :
    ["shop.json", "shop.yaml"].Perm ["shop.yaml", "shop.json"] ∧ ["shop.yaml", "shop.json"].Nodup ∧
      (∀ n ∈ ["shop.yaml", "shop.json"], (NaturalKey.of n).Ranked) ∧
      naturalSortBy id ["shop.json", "shop.yaml"] ≠ naturalSortBy id ["shop.yaml", "shop.json"] :=
  ⟨.swap _ _ _, by decide, by decide +kernel,
    naturalSortBy_swap_ne (by decide) (by decide +kernel) (by decide +kernel)⟩

end SchemaClosure
