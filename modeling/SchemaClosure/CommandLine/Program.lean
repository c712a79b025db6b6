import SchemaClosure.CommandLine.Invocation
import SchemaClosure.Inspect.Listing
import SchemaClosure.Run.Journal
import SchemaClosure.Text.Unstyled

/-!
# The program

Carries out what the arguments ask for on a file system. The answer is an exit code with what is
printed: zero on success, two for arguments that do not fit, and one for a failure that has a message.
Terminal styles are dropped from everything that is printed but the journal.

Both outputs are UTF-8 and take all that is printed. A surrogate has no octets: on the output for errors an
escape stands in its place, and on the other one printing fails (`Outcome.success`), with the files that
were written before left as they are.
-/

namespace SchemaClosure.CommandLine

/-- A failure without a message of its own. -/
inductive Failure where
  | run (e : RunError)
  /-- A path, or the text that is written to it, cannot be spelled. -/
  | path (e : FileError)
  /-- The listing holds something without a text. -/
  | listing (reason : Unwritable)
  /-- The file does not hold text. -/
  | undecodable (p : Path)
  /-- What is to be printed holds a surrogate. -/
  | unprintable
  deriving DecidableEq, Repr

/-- What is known of a failure. -/
def Failure.description : Failure → String
  | .undecodable p => s!"{p.text} does not hold text"
  | .run (.schema (.undecodable p)) => s!"{p} does not hold text"
  | .run (.schema (.text source _)) => s!"{source} holds a scalar that does not fit its tag"
  | .run (.schema (.ruleNotScalar label field _)) => s!"the rule of {label}.{field} is not a scalar"
  | .run (.configuration (.unreadable (.undecodable p))) => s!"{p.text} does not hold text"
  | .run (.configuration (.text _)) => "the configuration holds a scalar that does not fit its tag"
  | .run (.schema (.labelTooLong source)) => s!"{source} holds a name with too many digits"
  | .run (.schema (.endless source)) => s!"{source} holds a namespace without an end"
  | .run (.document .noForm) => "the document holds a value without a JSON form"
  | .run (.document .endless) => "the document holds a value without an end"
  | .run (.document .numberTooLong) => "the document holds an integer with too many digits"
  | .run e => e.message?.getD "the run failed"
  | .path ⟨.unencodable, p⟩ => s!"what is written to {p.text} holds a surrogate"
  | .path e => s!"{Text.quoted e.path.text} is not a path"
  | .unprintable => "what is printed holds a surrogate"
  | .listing _ => "the listing holds an integer with too many digits"

/-- How a program ends. -/
inductive Outcome where
  | exit (code : Nat) (output errors : String)
  | failure (cause : Failure)
  deriving DecidableEq, Repr

/-- The file system that a program leaves, and how it ends. -/
structure Result where
  files : FileSystem
  outcome : Outcome
  deriving Repr

namespace Outcome

def line (s : String) : String := Text.unstyled s ++ "\n"

/-- Success, unless what is printed has no octets. -/
def success (output errors : String) : Outcome :=
  if Text.isEncodable output then .exit 0 output (Text.escapeSurrogates errors)
  else .failure .unprintable

/-- Arguments that do not fit. -/
def misuse (s : String) : Outcome := .exit 2 "" (Text.escapeSurrogates (Text.unstyled s))

def message (s : String) : Outcome := .exit 1 "" (Text.escapeSurrogates (line s))

def ofFileError (e : FileError) : Outcome :=
  match e.message? with
  | some s => message s
  | none => .failure (.path e)

def ofRunError (e : RunError) : Outcome :=
  match e.message? with
  | some s => message s
  | none => .failure (.run e)

def journal (verbose : Bool) (lines : List String) : String :=
  if verbose then String.join (lines.map (· ++ "\n")) else ""

end Outcome

namespace Command

def runGenerate (fs : FileSystem) (output : String) : Result :=
  match Scaffold.write fs (.of output) with
  | (fs, .ok place) => ⟨fs, .success (Outcome.line place.text) ""⟩
  | (fs, .error (.file e)) => ⟨fs, .ofFileError e⟩
  | (fs, .error e) => ⟨fs, .message (e.message?.getD "")⟩

/-- What is printed for a prune run: the document unless it was written to a file. -/
def printed (report : PruneReport) : String :=
  match report.written with
  | none => Text.unstyled report.document
  | some p => Outcome.line p.text

def runFilter (fs : FileSystem) (verbose : Bool) (job : PruneJob) : Result :=
  match job.execute fs with
  | (after, .error e) => ⟨after, .ofRunError e⟩
  | (after, .ok report) =>
    let lines :=
      match Configuration.load fs job.configuration with
      | .ok c => Journal.pruning fs job c report.reachable
      | .error _ => []
    let summary := report.reachable.summary
    ⟨after, .success (printed report) <|
      Outcome.journal verbose lines ++ if summary.isEmpty then "" else Outcome.line summary⟩

def runInspect (fs : FileSystem) (verbose : Bool) (configuration : String) (filtered : Bool) :
    Result :=
  match Project.load fs (.of configuration) with
  | .error e => ⟨fs, .ofRunError e⟩
  | .ok project =>
    let schema :=
      if filtered then (project.schema.filterAll project.configuration.requests).map (·.2)
      else .ok project.schema
    match schema with
    | .error m => ⟨fs, .message m.message⟩
    | .ok schema =>
      match schema.listing? true with
      | .error reason => ⟨fs, .failure (.listing reason)⟩
      | .ok listing =>
        ⟨fs, .success (Outcome.line listing)
          (Outcome.journal verbose (Journal.loading fs project.configuration))⟩

/-- Wraps generated code; prints the result unless it is written to a file. -/
def runWrap (fs : FileSystem) (verbose : Bool) (input : String) (options : WrapSettings)
    (output : String) : Result :=
  match fs.read (.of input) with
  | .error (.file e) => ⟨fs, .ofFileError e⟩
  | .error (.undecodable p) => ⟨fs, .failure (.undecodable p)⟩
  | .ok text =>
    match options.wrap fs none text with
    | .error (.unreachable e) => ⟨fs, .ofFileError e⟩
    | .error (.undecodable p) => ⟨fs, .failure (.undecodable p)⟩
    | .error (.notFound name place) =>
      ⟨fs, .message ((Wrapper.Error.notFound name place).message?.getD "")⟩
    | .ok wrapped =>
      let errors := Outcome.journal verbose <|
        if Wrapper.isBuiltin fs options.wrapper then []
        else [Journal.customWrapper (Wrapper.customPlace fs none options.wrapper)]
      if output.isEmpty then ⟨fs, .success (Text.unstyled wrapped) errors⟩
      else
        match fs.writeBelow (.of output) wrapped with
        | (after, some e) => ⟨after, .ofFileError e⟩
        | (after, none) =>
          ⟨after, .success (Outcome.line (after.resolve (.of output)).text) errors⟩

def run (fs : FileSystem) (verbose : Bool) : Command → Result
  | .generateConfig output => runGenerate fs output
  | .filter job => runFilter fs verbose job
  | .inspect configuration filtered => runInspect fs verbose configuration filtered
  | .wrap input options output => runWrap fs verbose input options output

end Command

/-- Carries out what the arguments of the program ask for. Without any argument the usage is shown as
an error. -/
def run (fs : FileSystem) (arguments : List String) : Result :=
  if arguments.isEmpty then ⟨fs, .exit 2 "" (UsageError.usage .program)⟩
  else
    match Invocation.ofArguments arguments with
    | .error (c, e) => ⟨fs, .misuse (e.text c)⟩
    | .ok .version =>
      ⟨fs, .exit 0 (Outcome.line s!"{programName}, version {programVersion}") ""⟩
    | .ok (.help c) => ⟨fs, .exit 0 (UsageError.usage c) ""⟩
    | .ok (.misspelled e) => ⟨fs, .failure (.path e)⟩
    | .ok (.run verbose command) => command.run fs verbose

end SchemaClosure.CommandLine
