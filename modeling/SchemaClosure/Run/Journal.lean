import SchemaClosure.Run.Prune

/-!
# The journal of a run

What a run did, in lines that name the part that did it: directories that were searched, files that
were loaded, and what came of it.
-/

namespace SchemaClosure.Journal

/-- The lines for the directories among some paths. -/
def discovery (fs : FileSystem) (paths : List Path) : List String :=
  (paths.filter fs.isDirectory).map fun p =>
    let count := (Discovery.filesIn fs Discovery.schemaSuffixes p).length
    s!"schema_pruner.file_discovery.schema_file_discovery: Discovered {count} schema files in {p.text}"

def configuration (c : Configuration) : String :=
  let files := c.files.length
  let requests := c.requests.length
  s!"schema_pruner.configuration.loader: Loaded configuration {c.path.text}: "
    ++ s!"{files} schema files, {requests} filter requests"

/-- The lines for loading a configuration and its schema files. -/
def loading (fs : FileSystem) (c : Configuration) : List String :=
  discovery fs c.paths ++ configuration c
    :: c.files.map fun p =>
      s!"schema_pruner.schema_tree.tree_loader: Loaded schema document {p.text}"

def retained (r : ReachableNames) : String :=
  let types := (r.flatMap fun (_, names) => names).length
  let namespaces := r.length
  "schema_pruner.run_execution.prune_run_use_case: "
    ++ s!"Retained {types} types across {namespaces} namespaces"

def pruning (fs : FileSystem) (job : PruneJob) (c : Configuration) (r : ReachableNames) :
    List String :=
  let dry := if job.writes then none else job.destination c
  loading fs c ++ retained r :: dry.toList.map fun p =>
    s!"schema_pruner.run_execution.prune_run_use_case: Dry run, not writing {p.text}"

def customWrapper (place : Path) : String :=
  s!"schema_pruner.output_wrapping.output_wrapper: Using custom wrapper {place.text}"

end SchemaClosure.Journal
