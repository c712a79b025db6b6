import SchemaClosure.Reach.Prune
import SchemaClosure.Run.Project

/-!
# Prune runs

Loads what a configuration names, prunes the schema to what its requests reach, and writes the text of
the pruned schema. The text is complete before anything is written, so that a run that fails earlier
changes no file.
-/

namespace SchemaClosure

/-- A prune run. An output file and a format that are given here go before those of the
configuration; empty texts count as not given. -/
structure PruneJob where
  configuration : Path
  output : Option String
  format : Option String
  /-- Whether the output file is written. -/
  writes : Bool
  deriving DecidableEq, Repr

/-- The result of a prune run: what is reachable, the text of the pruned schema, and the file that it was
written to. -/
structure PruneReport where
  reachable : ReachableNames
  document : String
  written : Option Path
  deriving DecidableEq, Repr

namespace PruneJob

/-- A text that is given and not empty. -/
def given (s : Option String) : Option String := s.filter (· ≠ "")

def formatName (job : PruneJob) (c : Configuration) : String :=
  Text.lower ((given job.format).getD c.outputFormat.name)

/-- The output file of a run, whether or not it is written. -/
def destination (job : PruneJob) (c : Configuration) : Option Path :=
  match given job.output with
  | some s => some (.of s)
  | none => c.outputPath

/-- What is reachable, and the text of the pruned schema. -/
def document (job : PruneJob) (project : Project) :
    Except RunError (ReachableNames × String) :=
  match project.schema.filterAll project.configuration.requests with
  | .error m => .error (.missingType m)
  | .ok (reachable, schema) =>
    let format := job.formatName project.configuration
    match schema.dump format with
    | .ok text => .ok (reachable, text)
    | .error (.unsupported _) => .error (.unsupportedFormat format)
    | .error (.document reason) => .error (.document reason)

def execute (job : PruneJob) (fs : FileSystem) :
    FileSystem × Except RunError PruneReport :=
  match Project.load fs job.configuration with
  | .error e => (fs, .error e)
  | .ok project =>
    match job.document project with
    | .error e => (fs, .error e)
    | .ok (reachable, text) =>
      match (job.destination project.configuration).filter fun _ => job.writes with
      | none => (fs, .ok ⟨reachable, text, none⟩)
      | some p =>
        match fs.writeBelow p text with
        | (fs, none) => (fs, .ok ⟨reachable, text, some (fs.resolve p)⟩)
        | (fs, some e) => (fs, .error (.unwritable p e))

end PruneJob

end SchemaClosure
