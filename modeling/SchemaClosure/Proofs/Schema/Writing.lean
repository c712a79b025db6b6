import SchemaClosure.Proofs.Files.Writing
import SchemaClosure.Proofs.Run.Pruning
import SchemaClosure.Schema.Format

/-!
# What is left of a schema that has no text

A schema is written below directories that are made before its text is. If there is no text, because no format has
the given name or because the format has no form for some value of the document, writing fails with these directories
made (`Schema.write_of_dump_error`). So the files are as they were iff there was nothing to make
(`Schema.write_unchanged_iff`). A prune run has its text before it touches anything (`PruneJob.execute_unchanged_or`).
-/

namespace SchemaClosure

/-- A prune run leaves everything as it was, unless it has the text of the pruned schema. -/
theorem PruneJob.execute_unchanged_or (job : PruneJob) (fs : FileSystem) :
    (job.execute fs).1 = fs ∨ ∃ project reachable pruned text,
      Project.load fs job.configuration = .ok project ∧
      project.schema.filterAll project.configuration.requests = .ok (reachable, pruned) ∧
      pruned.dump (job.formatName project.configuration) = .ok text := by
  rw [execute]
  split
  · exact .inl rfl
  · rename_i project hproject
    split
    · exact .inl rfl
    · rename_i reachable text hdocument
      obtain ⟨pruned, hfilter, hdump⟩ := document_eq_ok hdocument
      exact .inr ⟨project, reachable, pruned, text, hproject, hfilter, hdump⟩

namespace Schema

variable {schema : Schema} {fs : FileSystem} {p : Path} {format : String} {e : DumpError}

/-- A schema is found to have no text when the directories have been made, and before the file is written. -/
theorem write_of_dump_error (h : (schema.write fs p format).2 = .error (.dump e)) :
    schema.dump format = .error e ∧ fs.makeDirectories p.parent = ((schema.write fs p format).1, none) := by
  rw [write] at h ⊢
  split at h
  · cases h
  · rename_i fs' hmade
    split at h
    · rename_i hdump
      cases h
      exact ⟨hdump, by simp [hmade]⟩
    · split at h <;> cases h

/-- **What is left of a schema that has no text.** Everything is as it was iff there is a directory to write to; else the
directories on the way to the path are new, and nothing else is. A prune run without a text leaves everything as it
was. -/
theorem write_unchanged_iff (fs : FileSystem) :
    (∀ (schema : Schema) (p : Path) (format : String) (e : DumpError),
      (schema.write fs p format).2 = .error (.dump e) →
      ((schema.write fs p format).1 = fs ↔ fs.isDirectory p.parent) ∧
      FileSystem.Grown p.parent fs (schema.write fs p format).1 ∧
      ∀ place, p.parent.Passes fs.home place → (schema.write fs p format).1.entryAt? place = some .directory) ∧
    ∀ job : PruneJob, (job.execute fs).1 = fs ∨ ∃ project reachable pruned text,
      Project.load fs job.configuration = .ok project ∧
      project.schema.filterAll project.configuration.requests = .ok (reachable, pruned) ∧
      pruned.dump (job.formatName project.configuration) = .ok text := by
  refine ⟨fun schema p format e h => ?_, fun job => job.execute_unchanged_or fs⟩
  obtain ⟨-, hmade⟩ := write_of_dump_error h
  have hgrown := FileSystem.makeDirectories_grown fs p.parent
  have hdirectory := FileSystem.isDirectory_of_makeDirectoriesFrom hmade
  rw [hmade] at hgrown
  refine ⟨FileSystem.makeDirectories_eq_self_iff hmade, hgrown, fun place hpasses => ?_⟩
  rw [← hgrown.home] at hpasses
  exact FileSystem.entryAt?_of_passes hdirectory hpasses

/-- A schema with a day among the options of its namespace. -/
def dated : Schema := ⟨[⟨"shop", "shop", [(.text "since", .scalar (.date none ⟨2020, 2, 3⟩))], []⟩]⟩

/-- A working directory in which one other directory stands. -/
def workplace : FileSystem :=
  { home := ["work"], program := ["opt"], limit := none
    entries := [(["work"], .directory), (["work", "out"], .directory)] }

theorem write_unchanged_iff_dated :
    (dated.write workplace (.of "out/shop.json") "json").2 = .error (.dump (.document .noForm)) ∧
    (dated.write workplace (.of "out/shop.json") "json").1 = workplace := by
  have hfailed : (dated.write workplace (.of "out/shop.json") "json").2 = .error (.dump (.document .noForm)) := by
    rfl
  have hplace : workplace.isDirectory (Path.of "out/shop.json").parent := by decide +kernel
  exact ⟨hfailed, ((write_unchanged_iff workplace).1 dated _ _ _ hfailed).1.2 hplace⟩

/-- Writing without a text makes the directory that it would have written to. -/
theorem write_leaves_directory :
    (dated.write workplace (.of "new/shop.json") "json").2 = .error (.dump (.document .noForm)) ∧
    (dated.write workplace (.of "new/shop.json") "json").1 ≠ workplace := by
  have hbefore : workplace.entryAt? ["work", "new"] = none := by rfl
  have hafter : (dated.write workplace (.of "new/shop.json") "json").1.entryAt? ["work", "new"] = some .directory := by
    rfl
  refine ⟨by rfl, fun hsame => ?_⟩
  rw [hsame, hbefore] at hafter
  cases hafter

end Schema

end SchemaClosure
