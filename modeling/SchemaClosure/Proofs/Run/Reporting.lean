import SchemaClosure.Proofs.Run.Pruning
import SchemaClosure.Proofs.Schema.Reporting
import SchemaClosure.Proofs.Settings.Reporting

/-!
# Which errors a run reports

A run that cannot be completed fails with a message, as far as its configuration and its schema documents are readable
(`Project.Readable`) and the document that it writes has a text in its format (`PruneJob.Writable`).
-/

namespace SchemaClosure

/-- The error has a message. -/
def RunError.Worded (e : RunError) : Prop := e.message?.isSome

theorem RunError.worded_schema {e : LoadError} (h : e.message?.isSome) : (RunError.schema e).Worded := by
  cases e with
  | unreachable e => cases h
  | _ => exact h

namespace SchemaDocument

/-- What is wrong with a schema file is reported: it holds text, its scalars fit their tags, and the document in it has no
flaw that loading does not report. -/
structure Legible (fs : FileSystem) (number : Nat) (p : Path) : Prop where
  decodable : ∀ q, fs.read p ≠ .error (.undecodable q)
  fits : ∀ text fault, fs.read p = .ok text → Yaml.parse number text = .error fault → fault = .malformed
  flawless : ∀ document, load fs number p = .ok document → ¬ document.Flawed

variable {fs : FileSystem}

/-- A file that is there can be read unless it does not hold text. -/
theorem undecodable_of_read {p : Path} {text : Option String} {e : ReadError} (hlook : fs.look p = .ok (some (.file text)))
    (h : fs.read p = .error e) : e = .undecodable p := by
  rw [FileSystem.look] at hlook
  split at hlook
  · rename_i place hplace
    simp only [FileSystem.read, hplace, Except.ok.inj hlook] at h
    cases text with
    | none =>
      cases h
      rfl
    | some s => cases h
  · cases hlook
  · cases hlook

theorem worded_of_load {number : Nat} {p : Path} {e : LoadError} (hr : Legible fs number p)
    (h : load fs number p = .error e) : (RunError.schema e).Worded := by
  unfold load at h
  split at h
  · rename_i hlook
    cases h
    exact FileSystem.worded_of_look hlook
  · rename_i hlook
    split at h
    · rename_i text hread
      rw [parse] at h
      split at h
      · rename_i fault hparse
        cases h
        rw [hr.fits text fault hread hparse]
        rfl
      · unfold ofValue at h
        split at h <;> cases h
        rfl
    · rename_i hread
      exact absurd (undecodable_of_read hlook hread ▸ hread) (hr.decodable p)
  · cases h
    rfl

/-- Legible files behind the first one, with the numbers that they are read with. -/
theorem legible_rest {number : Nat} {p : Path} {rest : List Path}
    (hr : ∀ n q, (p :: rest)[n]? = some q → Legible fs (number + n) q) :
    ∀ n q, rest[n]? = some q → Legible fs (number + 1 + n) q := by
  intro n q hq
  rw [Nat.add_assoc, Nat.add_comm 1 n]
  exact hr (n + 1) q (by simpa using hq)

theorem worded_of_loadAll {number : Nat} {files : List Path} {e : LoadError}
    (hr : ∀ n p, files[n]? = some p → Legible fs (number + n) p) (h : loadAll fs number files = .error e) :
    (RunError.schema e).Worded := by
  induction files generalizing number with
  | nil => cases h
  | cons p rest ih =>
    rw [loadAll, bind_eq_error_iff] at h
    rcases h with h | ⟨document, -, h⟩
    · exact worded_of_load (hr 0 p rfl) h
    · rcases bind_eq_error_iff.1 h with h | ⟨others, -, h⟩
      · exact ih (legible_rest hr) h
      · cases h

theorem flawless_of_loadAll {number : Nat} {files : List Path} {documents : List SchemaDocument}
    (hr : ∀ n p, files[n]? = some p → Legible fs (number + n) p) (h : loadAll fs number files = .ok documents) :
    ∀ document ∈ documents, ¬ document.Flawed := by
  induction files generalizing number documents with
  | nil =>
    cases h
    simp
  | cons p rest ih =>
    simp only [loadAll, bind_eq_ok_iff] at h
    obtain ⟨document, hdocument, others, hothers, h⟩ := h
    cases h
    exact List.forall_mem_cons.2 ⟨(hr 0 p rfl).flawless document hdocument, ih (legible_rest hr) hothers⟩

end SchemaDocument

theorem Schema.worded_of_load {fs : FileSystem} {files : List Path} {e : LoadError}
    (hr : ∀ n p, files[n]? = some p → SchemaDocument.Legible fs n p) (h : Schema.load fs files = .error e) :
    (RunError.schema e).Worded := by
  have hr : ∀ n p, files[n]? = some p → SchemaDocument.Legible fs (0 + n) p := by simpa using hr
  rw [load, bind_eq_error_iff] at h
  rcases h with h | ⟨documents, hdocuments, h⟩
  · exact SchemaDocument.worded_of_loadAll hr h
  · rcases reports_ofDocuments documents e h with hmessage | ⟨document, hmem, hflawed⟩
    · exact RunError.worded_schema hmessage
    · exact absurd hflawed (SchemaDocument.flawless_of_loadAll hr hdocuments document hmem)

/-- What is wrong with a configuration and the schema files that it names is reported. -/
structure Project.Readable (fs : FileSystem) (path : Path) : Prop where
  configuration : Configuration.Readable fs path
  documents : ∀ c, Configuration.load fs path = .ok c → ∀ n p, c.files[n]? = some p → SchemaDocument.Legible fs n p

theorem Project.worded_of_load {fs : FileSystem} {path : Path} {e : RunError} (hpath : path.Spelled)
    (hr : Project.Readable fs path) (h : Project.load fs path = .error e) : e.Worded := by
  rw [load] at h
  split at h
  · rename_i hconfiguration
    cases h
    exact Configuration.words_load hpath hr.configuration _ hconfiguration
  · rename_i c hconfiguration
    split at h
    · rename_i hschema
      cases h
      exact Schema.worded_of_load (hr.documents c hconfiguration) hschema
    · cases h

namespace PruneJob

/-- What a run writes has a text, and a place to be written to. -/
structure Writable (fs : FileSystem) (job : PruneJob) (project : Project) : Prop where
  text : ∀ reachable pruned reason, project.schema.filterAll project.configuration.requests = .ok (reachable, pruned) →
    pruned.dump (job.formatName project.configuration) ≠ .error (.document reason)
  spelled : ∀ p, job.target project.configuration = some p → p.Spelled

end PruneJob

end SchemaClosure
