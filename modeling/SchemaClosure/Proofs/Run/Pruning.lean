import SchemaClosure.Proofs.Files.Writing
import SchemaClosure.Proofs.Schema.Ascii
import SchemaClosure.Run.Prune

/-!
# What a prune run touches

A prune run has its text before it writes, so there are five ways in which it can end (`PruneJob.Ends`): nothing is
loaded, there is no text, the text is reported and not written, it is written to the output file, or writing fails. The
text is ASCII, so writing fails before the output file is opened, or because the device does not take all of the text:
then the file holds what the device has taken (`PruneJob.Ends.files`). What each of them leaves of the files is put
together in `PruneJob.execute_footprint`.
-/

namespace SchemaClosure

theorem Project.load_eq_ok_iff {fs : FileSystem} {path : Path} {project : Project} :
    Project.load fs path = .ok project ↔ Configuration.load fs path = .ok project.configuration ∧
      Schema.load fs project.configuration.files = .ok project.schema := by
  rw [Project.load]
  constructor
  · intro h
    split at h
    · cases h
    · rename_i hconfiguration
      split at h
      · cases h
      · rename_i hschema
        cases h
        exact ⟨hconfiguration, hschema⟩
  · rintro ⟨hconfiguration, hschema⟩
    simp [hconfiguration, hschema]

namespace PruneJob

variable {job : PruneJob} {fs : FileSystem}

/-- The document is the text of the loaded schema, pruned to what the requests of the configuration reach, in the format
that is given with the job or else with the configuration. -/
def Documents (job : PruneJob) (fs : FileSystem) (c : Configuration) (reachable : ReachableNames) (document : String) :
    Prop :=
  Configuration.load fs job.configuration = .ok c ∧ ∃ schema pruned,
    Schema.load fs c.files = .ok schema ∧ schema.filterAll c.requests = .ok (reachable, pruned) ∧
    pruned.dump (Text.lower ((given job.format).getD c.outputFormat.name)) = .ok document

theorem document_eq_ok {project : Project} {reachable : ReachableNames} {text : String}
    (h : job.document project = .ok (reachable, text)) :
    ∃ pruned, project.schema.filterAll project.configuration.requests = .ok (reachable, pruned) ∧
      pruned.dump (job.formatName project.configuration) = .ok text := by
  rw [document] at h
  split at h
  · cases h
  · rename_i hfilter
    dsimp only at h
    split at h
    · rename_i hdump
      cases h
      exact ⟨_, hfilter, hdump⟩
    · cases h
    · cases h

theorem documents {project : Project} {reachable : ReachableNames} {text : String}
    (hproject : Project.load fs job.configuration = .ok project) (h : job.document project = .ok (reachable, text)) :
    job.Documents fs project.configuration reachable text := by
  obtain ⟨hconfiguration, hschema⟩ := Project.load_eq_ok_iff.1 hproject
  obtain ⟨pruned, hfilter, hdump⟩ := document_eq_ok h
  exact ⟨hconfiguration, _, pruned, hschema, hfilter, hdump⟩

/-- A document is ASCII. -/
theorem Documents.ascii {c : Configuration} {reachable : ReachableNames} {document : String}
    (h : job.Documents fs c reachable document) : Text.Ascii document := by
  obtain ⟨-, _, _, -, -, hdump⟩ := h
  exact Schema.ascii_dump hdump

/-- The file that is written, unless the job writes none. -/
def target (job : PruneJob) (c : Configuration) : Option Path := (job.destination c).filter fun _ => job.writes

theorem target_eq_some_iff {c : Configuration} {p : Path} :
    job.target c = some p ↔ job.destination c = some p ∧ job.writes = true :=
  Option.filter_eq_some_iff

/-- The ways in which a run can end, with the files that are left and the result. -/
inductive Ends (job : PruneJob) (fs : FileSystem) : FileSystem → Except RunError PruneReport → Prop
  | unloaded {e : RunError} : Project.load fs job.configuration = .error e → Ends job fs fs (.error e)
  | undocumented {project : Project} {e : RunError} :
    Project.load fs job.configuration = .ok project → job.document project = .error e → Ends job fs fs (.error e)
  | reported {project : Project} {reachable : ReachableNames} {text : String} :
    Project.load fs job.configuration = .ok project → job.document project = .ok (reachable, text) →
    job.target project.configuration = none → Ends job fs fs (.ok ⟨reachable, text, none⟩)
  | wrote {project : Project} {reachable : ReachableNames} {text : String} {p : Path} {fs' : FileSystem} :
    Project.load fs job.configuration = .ok project → job.document project = .ok (reachable, text) →
    job.target project.configuration = some p → fs.writeBelow p text = (fs', none) →
    Ends job fs fs' (.ok ⟨reachable, text, some (fs'.resolve p)⟩)
  | unwritable {project : Project} {reachable : ReachableNames} {text : String} {p : Path} {fs' : FileSystem}
      {e : FileError} :
    Project.load fs job.configuration = .ok project → job.document project = .ok (reachable, text) →
    job.target project.configuration = some p → fs.writeBelow p text = (fs', some e) →
    Ends job fs fs' (.error (.unwritable p e))

theorem ends (job : PruneJob) (fs : FileSystem) : job.Ends fs (job.execute fs).1 (job.execute fs).2 := by
  rw [execute]
  split
  · rename_i hload
    exact .unloaded hload
  · rename_i hproject
    split
    · rename_i hdocument
      exact .undocumented hproject hdocument
    · rename_i hdocument
      split
      · rename_i htarget
        exact .reported hproject hdocument htarget
      · rename_i htarget
        split
        · rename_i hwrite
          exact .wrote hproject hdocument htarget hwrite
        · rename_i hwrite
          exact .unwritable hproject hdocument htarget hwrite

/-- The device has taken the first octets of the document only, and the output file holds them. -/
def Refused (job : PruneJob) (fs fs' : FileSystem) (e : RunError) : Prop :=
  ∃ c reachable document p limit, job.Documents fs c reachable document ∧ job.writes = true ∧
    job.destination c = some p ∧ fs.limit = some limit ∧ limit.octets < document.utf8ByteSize ∧
    e = .unwritable p ⟨.refused limit.reason, p⟩ ∧
    FileSystem.Written p (some (String.ofList (document.toList.take limit.octets))) fs fs'

/-- A run that does not end well leaves all files as they were, unless the device has refused a part of the document. -/
theorem Ends.files {fs' : FileSystem} {e : RunError} (h : job.Ends fs fs' (.error e)) :
    (∀ place text, fs'.entryAt? place = some (.file text) ↔ fs.entryAt? place = some (.file text)) ∨
      job.Refused fs fs' e := by
  cases h with
  | unloaded => exact .inl fun _ _ => Iff.rfl
  | undocumented => exact .inl fun _ _ => Iff.rfl
  | @unwritable project reachable document p _ fault hproject hdocument htarget hwrite =>
    have hdocuments := documents hproject hdocument
    have hleft := FileSystem.writeBelow_cases fs p document
    rw [hwrite] at hleft
    rcases hleft with ⟨hgrown, -⟩ | ⟨hwritten, hfault⟩
    · exact .inl hgrown.files
    · rcases FileSystem.written_of_encodable fs hdocuments.ascii.isEncodable with
        hall | ⟨limit, hlimit, hroom, hpart⟩
      · rw [hall] at hfault
        cases hfault
      · rw [hpart] at hfault hwritten
        rw [FileSystem.beginning?_of_ascii hdocuments.ascii] at hwritten
        cases hfault
        obtain ⟨hdestination, hwrites⟩ := target_eq_some_iff.1 htarget
        exact .inr ⟨_, _, _, p, limit, hdocuments, hwrites, hdestination, hlimit, hroom, rfl, hwritten⟩

/-- A run with nothing to write leaves everything as it was. -/
theorem Ends.unchanged {fs' : FileSystem} {result : Except RunError PruneReport} (h : job.Ends fs fs' result)
    (htarget : ∀ project, Project.load fs job.configuration = .ok project →
      job.target project.configuration = none) : fs' = fs := by
  cases h with
  | unloaded => rfl
  | undocumented => rfl
  | reported => rfl
  | wrote hproject _ hsome => rw [htarget _ hproject] at hsome; cases hsome
  | unwritable hproject _ hsome => rw [htarget _ hproject] at hsome; cases hsome

/-- A run that ends well has written its whole document, if it was to write any. -/
theorem Ends.report {fs' : FileSystem} {report : PruneReport} (h : job.Ends fs fs' (.ok report)) :
    ∃ c, job.Documents fs c report.reachable report.document ∧ (report.written = none → fs' = fs) ∧
      ∀ q, report.written = some q → job.writes = true ∧ ∃ p, job.destination c = some p ∧ q = fs.resolve p ∧
        FileSystem.Written p (some report.document) fs fs' := by
  cases h with
  | reported hproject hdocument _ => exact ⟨_, documents hproject hdocument, fun _ => rfl, nofun⟩
  | @wrote project reachable document p _ hproject hdocument htarget hwrite =>
    have hdocuments := documents hproject hdocument
    refine ⟨_, hdocuments, nofun, fun q hq => ?_⟩
    have hleft := FileSystem.writeBelow_cases fs p document
    rw [hwrite] at hleft
    rcases hleft with ⟨-, hfailed⟩ | ⟨hwritten, hfault⟩
    · cases hfailed
    · rcases FileSystem.written_of_encodable fs hdocuments.ascii.isEncodable with hall | ⟨_, -, -, hpart⟩
      · rw [hall] at hwritten
        cases hq
        obtain ⟨hdestination, hwrites⟩ := target_eq_some_iff.1 htarget
        exact ⟨hwrites, p, hdestination, by rw [FileSystem.resolve, hwritten.host, FileSystem.resolve], hwritten⟩
      · rw [hpart] at hfault
        cases hfault

theorem target_eq_none_of_not_writes (h : job.writes = false) (c : Configuration) : job.target c = none := by
  cases hdestination : job.destination c <;> simp [target, hdestination, h]

/-- **What a prune run touches.** If it fails no file is created and none is changed, unless the device refuses a part of
the document when the output file is open: then that file alone is changed, and holds what the device has taken. If it is
not to write, or no output file is given, nothing is changed at all. If it reports, its document is the text of the loaded
schema, pruned to what the configured requests reach, in the format that is given with the job or else with the
configuration; and the output file, if there is one to be written, holds the document, with only directories made on the
way to it. -/
theorem execute_footprint (job : PruneJob) (fs : FileSystem) :
    (∀ e, (job.execute fs).2 = .error e →
      (∀ place text,
        (job.execute fs).1.entryAt? place = some (.file text) ↔ fs.entryAt? place = some (.file text)) ∨
      job.Refused fs (job.execute fs).1 e) ∧
    (job.writes = false → (job.execute fs).1 = fs) ∧
    ((∀ project, Project.load fs job.configuration = .ok project →
      given job.output = none ∧ project.configuration.outputPath = none) → (job.execute fs).1 = fs) ∧
    ∀ report, (job.execute fs).2 = .ok report → ∃ c, job.Documents fs c report.reachable report.document ∧
      (report.written = none → (job.execute fs).1 = fs) ∧
      ∀ q, report.written = some q → job.writes = true ∧ ∃ p, job.destination c = some p ∧ q = fs.resolve p ∧
        FileSystem.Written p (some report.document) fs (job.execute fs).1 := by
  have hends := job.ends fs
  generalize job.execute fs = after at hends
  obtain ⟨fs', result⟩ := after
  dsimp only at hends ⊢
  refine ⟨?_, fun hwrites => ?_, fun hnone => ?_, ?_⟩
  · rintro e rfl
    exact hends.files
  · exact hends.unchanged fun project _ => target_eq_none_of_not_writes hwrites project.configuration
  · refine hends.unchanged fun project hproject => ?_
    obtain ⟨hgiven, hconfigured⟩ := hnone project hproject
    simp [target, destination, hgiven, hconfigured]
  · rintro report rfl
    exact hends.report

/-! ### A directory with an older output file -/

/-- A directory with a configuration, an empty schema file and an older output file, on a device that has so much room
for a text. -/
def vacantFiles (limit : Option Limit) : FileSystem :=
  { home := [], program := ["opt"], limit
    entries := [
      (["pruner.yaml"], .file (some "schema: \x7bpaths: shop.yaml\x7d\nfilter: \x7bnamespace: shop, types: Order\x7d\n")),
      (["shop.yaml"], .file (some "namespaces: \x7b\x7d\n")),
      (["small.yaml"], .file (some "older"))] }

/-- The run that writes what it keeps to a file. -/
def vacantJob (output : String) : PruneJob := ⟨.of "pruner.yaml", some output, none, true⟩

/-- A run that fails on a full device has emptied its output file; and a run that goes up from a directory makes it,
although it is not on the way to the file that is reported. -/
theorem execute_touches_more :
    ((vacantJob "small.yaml").execute (vacantFiles (some ⟨0, .full⟩))).2 =
      .error (.unwritable (.of "small.yaml") ⟨.refused .full, .of "small.yaml"⟩) ∧
    (vacantFiles (some ⟨0, .full⟩)).entryAt? ["small.yaml"] = some (.file (some "older")) ∧
    ((vacantJob "small.yaml").execute (vacantFiles (some ⟨0, .full⟩))).1.entryAt? ["small.yaml"] =
      some (.file (some "")) ∧
    ((vacantJob "new/../small.yaml").execute (vacantFiles none)).2.map PruneReport.written =
      .ok (some (.of "/small.yaml")) ∧
    (vacantFiles none).entryAt? ["new"] = none ∧
    ((vacantJob "new/../small.yaml").execute (vacantFiles none)).1.entryAt? ["new"] = some .directory ∧
    ¬ (Path.of "/small.yaml").parent.Passes (vacantFiles none).home ["new"] := by
  have hrefused : ((vacantJob "small.yaml").execute (vacantFiles (some ⟨0, .full⟩))).2 =
        .error (.unwritable (.of "small.yaml") ⟨.refused .full, .of "small.yaml"⟩) ∧
      ((vacantJob "small.yaml").execute (vacantFiles (some ⟨0, .full⟩))).1.entryAt? ["small.yaml"] =
        some (.file (some "")) := by
    decide +kernel
  have hdetour : ((vacantJob "new/../small.yaml").execute (vacantFiles none)).2.map PruneReport.written =
        .ok (some (.of "/small.yaml")) ∧
      ((vacantJob "new/../small.yaml").execute (vacantFiles none)).1.entryAt? ["new"] = some .directory := by
    decide +kernel
  refine ⟨hrefused.1, by rfl, hrefused.2, hdetour.1, by rfl, hdetour.2, ?_⟩
  have hnames : (Path.of "/small.yaml").parent.names = [] := by decide +kernel
  rintro ⟨n, hn⟩
  rw [hnames, List.take_nil] at hn
  revert hn
  decide +kernel

end PruneJob

end SchemaClosure
