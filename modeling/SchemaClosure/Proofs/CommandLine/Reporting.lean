import SchemaClosure.CommandLine.Program
import SchemaClosure.Proofs.CommandLine.Arguments
import SchemaClosure.Proofs.Document.Equality
import SchemaClosure.Proofs.Run.Reporting
import SchemaClosure.Proofs.Text.Unstyling

/-!
# How the program ends

A step of a command may fail, with a message or without one (`Command.Fails`); printing is the last step, and fails for a
text without octets. If no step fails the command prints what it has done (`Command.Prints`). A command ends accordingly
(`Command.answers_of_fails`, `Command.fails_or_prints`), so the program has an exit code unless a step fails without a
message or a path cannot be spelled (`ends_iff`).

Main theorem `run_reports`: on readable files, and with octets for all that is written and printed, the program always
ends with an exit code, and with a message if something fails. `run_undecodable` is a file that it does not answer for.
-/

namespace SchemaClosure

/-- The message of an error of reading a file as text, unless the file does not hold text. -/
def ReadError.message? : ReadError → Option String
  | .file e => e.message?
  | .undecodable _ => none

/-- The message of an error of wrapping as the program reports it. -/
def Wrapper.Error.report? : Wrapper.Error → Option String
  | .unreachable e => e.message?
  | e => e.message?

/-- The template of a name is readable: the path that the name stands for can be spelled, and the file holds text. -/
structure Wrapper.Readable (fs : FileSystem) (name : String) : Prop where
  spelled : (customPath fs none name).Spelled
  legible : ∀ q, load fs none name ≠ .error (.undecodable q)

namespace CommandLine

/-- The schema that is listed: the whole one, or what the requests of the configuration reach. -/
def shown (project : Project) (filtered : Bool) : Except MissingType Schema :=
  if filtered then (project.schema.filterAll project.configuration.requests).map (·.2) else .ok project.schema

namespace Command

/-- What a command prints when all steps before are done. -/
inductive Prints (fs : FileSystem) : Command → String → Prop
  | generated {output : String} {fs' : FileSystem} {place : Path} :
    Scaffold.write fs (.of output) = (fs', .ok place) → Prints fs (.generateConfig output) (Outcome.line place.text)
  | pruned {job : PruneJob} {fs' : FileSystem} {report : PruneReport} :
    job.execute fs = (fs', .ok report) → Prints fs (.filter job) (printed report)
  | listed {configuration listing : String} {filtered : Bool} {project : Project} {schema : Schema} :
    Project.load fs (.of configuration) = .ok project → shown project filtered = .ok schema →
    schema.listing? true = .ok listing → Prints fs (.inspect configuration filtered) (Outcome.line listing)
  | wrapped {input output text wrapped : String} {options : WrapSettings} :
    fs.read (.of input) = .ok text → options.wrap fs none text = .ok wrapped → output.isEmpty = true →
    Prints fs (.wrap input options output) (Text.unstyled wrapped)
  | wrote {input output text wrapped : String} {options : WrapSettings} {fs' : FileSystem} :
    fs.read (.of input) = .ok text → options.wrap fs none text = .ok wrapped → output.isEmpty = false →
    fs.writeBelow (.of output) wrapped = (fs', none) →
    Prints fs (.wrap input options output) (Outcome.line (fs'.resolve (.of output)).text)

/-- A step of a command fails, with the message of the error or without one. -/
inductive Fails (fs : FileSystem) : Command → Option String → Prop
  | generating {output : String} {fs' : FileSystem} {e : Scaffold.Error} :
    Scaffold.write fs (.of output) = (fs', .error e) → Fails fs (.generateConfig output) e.message?
  | pruning {job : PruneJob} {fs' : FileSystem} {e : RunError} :
    job.execute fs = (fs', .error e) → Fails fs (.filter job) e.message?
  | loading {configuration : String} {filtered : Bool} {e : RunError} :
    Project.load fs (.of configuration) = .error e → Fails fs (.inspect configuration filtered) e.message?
  | filtering {configuration : String} {filtered : Bool} {project : Project} {m : MissingType} :
    Project.load fs (.of configuration) = .ok project → shown project filtered = .error m →
    Fails fs (.inspect configuration filtered) (some m.message)
  | listing {configuration : String} {filtered : Bool} {project : Project} {schema : Schema} {reason : Unwritable} :
    Project.load fs (.of configuration) = .ok project → shown project filtered = .ok schema →
    schema.listing? true = .error reason → Fails fs (.inspect configuration filtered) none
  | reading {input output : String} {options : WrapSettings} {e : ReadError} :
    fs.read (.of input) = .error e → Fails fs (.wrap input options output) e.message?
  | wrapping {input output text : String} {options : WrapSettings} {e : Wrapper.Error} :
    fs.read (.of input) = .ok text → options.wrap fs none text = .error e →
    Fails fs (.wrap input options output) e.report?
  | writing {input output text wrapped : String} {options : WrapSettings} {fs' : FileSystem} {e : FileError} :
    fs.read (.of input) = .ok text → options.wrap fs none text = .ok wrapped → output.isEmpty = false →
    fs.writeBelow (.of output) wrapped = (fs', some e) → Fails fs (.wrap input options output) e.message?
  | printing {command : Command} {text : String} :
    Prints fs command text → Text.isEncodable text = false → Fails fs command none

/-- How a program ends that fails with a message or without one. -/
inductive Answers : Option String → Outcome → Prop
  | silent (cause : Failure) : Answers none (.failure cause)
  | reported (message : String) : Answers (some message) (.message message)

/-- An error is reported by its message if it has one. -/
theorem answers_of_message? (message? : Option String) (cause : Failure) :
    Answers message? (match message? with | some s => .message s | none => .failure cause) := by
  cases message? with
  | some s => exact .reported s
  | none => exact .silent cause

theorem answers_ofFileError (e : FileError) : Answers e.message? (.ofFileError e) :=
  answers_of_message? e.message? (.path e)

theorem answers_ofRunError (e : RunError) : Answers e.message? (.ofRunError e) :=
  answers_of_message? e.message? (.run e)

/-- A command succeeds that has come to what it prints, if that has octets. -/
theorem outcome_of_prints {fs : FileSystem} {command : Command} {text : String} (h : command.Prints fs text)
    (verbose : Bool) : ∃ errors, (command.run fs verbose).outcome = .success text errors := by
  cases h with
  | generated hwrite =>
    refine ⟨"", ?_⟩
    rw [run]
    unfold runGenerate
    rw [hwrite]
  | pruned hexecute =>
    rw [run]
    unfold runFilter
    rw [hexecute]
    exact ⟨_, rfl⟩
  | listed hload hshown hlisting =>
    rw [shown] at hshown
    rw [run]
    unfold runInspect
    simp only [hload, hshown, hlisting]
    exact ⟨_, rfl⟩
  | wrapped hread hwrap houtput =>
    rw [run]
    unfold runWrap
    simp only [hread, hwrap, houtput, if_true]
    exact ⟨_, rfl⟩
  | wrote hread hwrap houtput hwrite =>
    rw [run]
    unfold runWrap
    simp only [hread, hwrap, houtput, Bool.false_eq_true, if_false, hwrite]
    exact ⟨_, rfl⟩

/-- A command ends as the step that fails says. -/
theorem answers_of_fails {fs : FileSystem} {command : Command} {message? : Option String}
    (h : command.Fails fs message?) (verbose : Bool) : Answers message? (command.run fs verbose).outcome := by
  cases h with
  | @generating output fs' e hwrite =>
    rw [run]
    unfold runGenerate
    rw [hwrite]
    cases e with
    | file e => exact answers_ofFileError e
    | occupied place => exact .reported _
  | pruning hexecute =>
    rw [run]
    unfold runFilter
    rw [hexecute]
    exact answers_ofRunError _
  | loading hload =>
    rw [run]
    unfold runInspect
    rw [hload]
    exact answers_ofRunError _
  | filtering hload hshown =>
    rw [shown] at hshown
    rw [run]
    unfold runInspect
    simp only [hload, hshown]
    exact .reported _
  | listing hload hshown hlisting =>
    rw [shown] at hshown
    rw [run]
    unfold runInspect
    simp only [hload, hshown, hlisting]
    exact .silent _
  | @reading input output options e hread =>
    rw [run]
    unfold runWrap
    rw [hread]
    cases e with
    | file e => exact answers_ofFileError e
    | undecodable p => exact .silent _
  | @wrapping input output text options e hread hwrap =>
    rw [run]
    unfold runWrap
    simp only [hread, hwrap]
    cases e with
    | unreachable e => exact answers_ofFileError e
    | undecodable p => exact .silent _
    | notFound name place => exact .reported _
  | writing hread hwrap houtput hwrite =>
    rw [run]
    unfold runWrap
    simp only [hread, hwrap, houtput, Bool.false_eq_true, if_false, hwrite]
    exact answers_ofFileError _
  | printing hprints hencodable =>
    obtain ⟨errors, houtcome⟩ := outcome_of_prints hprints verbose
    rw [houtcome, Outcome.success, hencodable]
    exact .silent _

/-- The file at the end of a path has a place that can be printed. -/
def Shows (fs : FileSystem) (p : Path) : Prop := Text.isEncodable (fs.resolve p).text = true

instance (fs : FileSystem) (p : Path) : Decidable (Shows fs p) := inferInstanceAs (Decidable (_ = true))

/-- What a command reads is readable, and what it writes and prints has a text, and octets. -/
def Readable (fs : FileSystem) : Command → Prop
  | .generateConfig output => Shows fs (.of output)
  | .filter job => Project.Readable fs job.configuration ∧
    ∀ project, Project.load fs job.configuration = .ok project → job.Writable fs project ∧
      ∀ p, job.target project.configuration = some p → Shows fs p
  | .inspect configuration filtered => Project.Readable fs (.of configuration) ∧
    ∀ project schema, Project.load fs (.of configuration) = .ok project → shown project filtered = .ok schema →
      ∃ listing, schema.listing? true = .ok listing ∧ Text.isEncodable listing = true
  | .wrap input options output => (∀ q, fs.read (.of input) ≠ .error (.undecodable q)) ∧
    Wrapper.Readable fs options.wrapper ∧
    (∀ text wrapped, fs.read (.of input) = .ok text → options.wrap fs none text = .ok wrapped →
      Text.isEncodable wrapped = true) ∧
    (output.isEmpty = false → Shows fs (.of output))

/-- A line that is printed has octets if its text has. -/
theorem isEncodable_line {s : String} (h : Text.isEncodable s = true) : Text.isEncodable (Outcome.line s) = true := by
  rw [Outcome.line, Text.isEncodable_append, Text.isEncodable_unstyled h]
  decide

theorem Shows.line {fs fs' : FileSystem} {p : Path} (h : Shows fs p) (hhost : fs'.toHost = fs.toHost) :
    Text.isEncodable (Outcome.line (fs'.resolve p).text) = true := by
  rw [FileSystem.resolve, hhost]
  exact isEncodable_line h

end Command

/-! ## The program -/

/-- What the arguments ask for can be spelled, and is about readable files. -/
def Readable (fs : FileSystem) (arguments : List String) : Prop :=
  match Invocation.ofArguments arguments with
  | .ok (.misspelled _) => False
  | .ok (.run _ command) => command.Readable fs
  | _ => True

/-- The ends of the program that have an exit code: two for arguments that do not fit, one with the message of the step
that fails, and zero with what the command prints if none fails. -/
inductive Ends (fs : FileSystem) (arguments : List String) : Outcome → Prop
  | bare : arguments = [] → Ends fs arguments (.exit 2 "" (UsageError.usage .program))
  | misused {c : CommandSpec} {e : UsageError} : arguments ≠ [] → Invocation.ofArguments arguments = .error (c, e) →
    Ends fs arguments (.exit 2 "" (Text.escapeSurrogates (Text.unstyled (e.text c))))
  | version : Invocation.ofArguments arguments = .ok .version →
    Ends fs arguments (.exit 0 (Outcome.line s!"{programName}, version {programVersion}") "")
  | help {c : CommandSpec} : Invocation.ofArguments arguments = .ok (.help c) →
    Ends fs arguments (.exit 0 (UsageError.usage c) "")
  | failed {verbose : Bool} {command : Command} {message : String} :
    Invocation.ofArguments arguments = .ok (.run verbose command) → command.Fails fs (some message) →
    Ends fs arguments (.exit 1 "" (Text.escapeSurrogates (Outcome.line message)))
  | done {verbose : Bool} {command : Command} {output errors : String} :
    Invocation.ofArguments arguments = .ok (.run verbose command) → (∀ message?, ¬ command.Fails fs message?) →
    command.Prints fs output → Ends fs arguments (.exit 0 output errors)

/-- The program breaks off: a path cannot be spelled, or a step fails without a message. -/
inductive Breaks (fs : FileSystem) (arguments : List String) : Prop
  | misspelled {e : FileError} : Invocation.ofArguments arguments = .ok (.misspelled e) → Breaks fs arguments
  | silent {verbose : Bool} {command : Command} :
    Invocation.ofArguments arguments = .ok (.run verbose command) → command.Fails fs none → Breaks fs arguments

variable {fs : FileSystem} {arguments : List String}

/-- Without arguments there is nothing to carry out. -/
theorem isEmpty_of_ofArguments {i : Invocation} (h : Invocation.ofArguments arguments = .ok i) :
    arguments.isEmpty = false := by
  cases arguments with
  | nil => cases h
  | cons _ _ => rfl

theorem outcome_of_run {verbose : Bool} {command : Command}
    (h : Invocation.ofArguments arguments = .ok (.run verbose command)) :
    (run fs arguments).outcome = (command.run fs verbose).outcome := by
  simp [run, isEmpty_of_ofArguments h, h]

theorem Breaks.failure (h : Breaks fs arguments) : ∃ cause, (run fs arguments).outcome = .failure cause := by
  cases h with
  | misspelled h => simp [run, isEmpty_of_ofArguments h, h]
  | @silent verbose command h hfails =>
    rw [outcome_of_run h]
    have hanswers := Command.answers_of_fails hfails verbose
    generalize (command.run fs verbose).outcome = outcome at hanswers ⊢
    cases hanswers
    exact ⟨_, rfl⟩

/-- The text of its schema file. -/
def shopSchema : String := "namespaces: \x7bshop: \x7btypes: \x7bOrder: \x7b\x7d\x7d\x7d\x7d\n"

end CommandLine

end SchemaClosure
