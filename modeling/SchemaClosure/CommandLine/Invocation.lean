import SchemaClosure.CommandLine.Usage
import SchemaClosure.Run.Prune
import SchemaClosure.Settings.Scaffold
import SchemaClosure.Wrapping.Splice

/-!
# Invocations

What the arguments of the program ask for: one of the four commands with its settings, the version, or
help. Help and version go before everything else that is asked for, but not before an option that is
unknown or incomplete. A value that is given and wrong is reported before one that is missing, and a
missing one before arguments too many. A path that cannot be spelled counts as given and wrong.
-/

namespace SchemaClosure.CommandLine

inductive Command where
  | generateConfig (output : String)
  | filter (job : PruneJob)
  | inspect (configuration : String) (filtered : Bool)
  | wrap (input : String) (options : WrapSettings) (output : String)
  deriving DecidableEq, Repr

/-- What the arguments ask for. -/
inductive Invocation where
  | version
  | help (c : CommandSpec)
  /-- A path among the arguments cannot be spelled. -/
  | misspelled (e : FileError)
  | run (verbose : Bool) (command : Command)
  deriving DecidableEq, Repr

def programName : String := "schema-pruner"

def programVersion : String := "0.3.0"

namespace CommandSpec

/-- The program itself. -/
def program : CommandSpec :=
  ⟨programName, "[OPTIONS] COMMAND [ARGS]...",
    [⟨["--version"], false⟩, ⟨["-v", "--verbose"], false⟩, helpOption], false⟩

/-- A command of the program that takes these options with a value, and these without. -/
def sub (name : String) (valued flags : List String) : CommandSpec :=
  ⟨programName ++ " " ++ name, "[OPTIONS]",
    valued.map (fun n => ⟨[n], true⟩) ++ flags.map (fun n => ⟨[n], false⟩) ++ [helpOption], true⟩

/-- Writes a configuration to start from. -/
def generateConfig : CommandSpec := sub "generate-config" ["--output"] []

/-- Prunes a schema. -/
def filter : CommandSpec := sub "filter" ["--config", "--output", "--format"] ["--dry-run"]

/-- Lists a schema. -/
def inspect : CommandSpec := sub "inspect" ["--config"] ["--filtered", "--full"]

/-- Wraps generated code. -/
def wrap : CommandSpec :=
  sub "wrap" ["--input", "--wrapper", "--dependency", "--lint", "--output"] []

end CommandSpec

namespace Invocation

/-- A letter as it counts in a choice: regardless of case, a long s as an s. -/
def foldLetter (c : Char) : Char := if c = 'ſ' then 's' else c.toLower

/-- The format that is chosen, if one is given. -/
def formatChoice (a : Arguments) : Except UsageError (Option String) :=
  match a.last? "--format" with
  | none => .ok none
  | some name =>
    match Format.ofName? (String.ofList (name.toList.map foldLetter)) with
    | some format => .ok (some format.name)
    | none => .error (.invalidChoice "--format" name (Format.all.map Format.name))

def filterCommand (a : Arguments) : Except UsageError Command := do
  let format ← formatChoice a
  let configuration ← a.required "--config"
  a.noMore
  return .filter ⟨.of configuration, a.last? "--output", format, !a.has "--dry-run"⟩

/-- The settings of `inspect`; of the two flags the last one counts. -/
def inspectCommand (a : Arguments) : Except UsageError Command := do
  let configuration ← a.required "--config"
  a.noMore
  let flag := a.given.reverse.find? fun (key, _) => key = "--filtered" || key = "--full"
  return .inspect configuration (flag.any fun (key, _) => key = "--filtered")

def wrapCommand (a : Arguments) : Except UsageError Command := do
  let input ← a.required "--input"
  a.noMore
  let options : WrapSettings :=
    ⟨(a.last? "--wrapper").getD Wrapper.defaultName, a.last? "--dependency",
      some ((a.last? "--lint").getD WrapSettings.defaultLint)⟩
  return .wrap input options ((a.last? "--output").getD "")

def generateCommand (a : Arguments) : Except UsageError Command := do
  a.noMore
  return .generateConfig ((a.last? "--output").getD Scaffold.defaultName)

def commands : List (String × CommandSpec × (Arguments → Except UsageError Command)) :=
  [("generate-config", .generateConfig, generateCommand), ("filter", .filter, filterCommand),
   ("inspect", .inspect, inspectCommand), ("wrap", .wrap, wrapCommand)]

/-- An invocation, or an error in the arguments of a command. -/
abbrev Reading := Except (CommandSpec × UsageError) Invocation

/-- The options whose value is a path. -/
def pathOptions : List String := ["--config", "--input", "--output"]

/-- The first path among the values of options that cannot be spelled, unless a wrong choice stands before
it. -/
def misspelled? (a : Arguments) : List String → Option FileError
  | [] => none
  | key :: rest =>
    if key = "--format" && (formatChoice a).toOption.isNone then none
    else
      let path := Path.of ((a.last? key).getD "")
      match path.spellingFault? with
      | some fault => if pathOptions.contains key then some ⟨fault, path⟩ else misspelled? a rest
      | none => misspelled? a rest

def ofCommand (verbose : Bool) (c : CommandSpec) (settings : Arguments → Except UsageError Command)
    (arguments : List String) : Reading :=
  match c.read arguments with
  | .error e => .error (c, e)
  | .ok a =>
    if a.has "-h" then .ok (.help c)
    else
      match misspelled? a (a.given.map (·.1)), settings a with
      | some e, _ => .ok (.misspelled e)
      | none, .error e => .error (c, e)
      | none, .ok command => .ok (.run verbose command)

/-- Version or help, whichever is asked for first. -/
def early? (a : Arguments) : Option Invocation :=
  a.given.findSome? fun (key, _) =>
    if key = "--version" then some version
    else if key = "-h" then some (help .program) else none

/-- Reads the arguments of the program. An unknown command that looks like an option is read as one
first. -/
def ofArguments (arguments : List String) : Reading :=
  match CommandSpec.program.read arguments with
  | .error e => .error (.program, e)
  | .ok a =>
    match early? a, a.rest with
    | some i, _ => .ok i
    | none, [] => .error (.program, .missingCommand)
    | none, name :: rest =>
      match commands.lookup name with
      | some (c, settings) => ofCommand (a.has "-v") c settings rest
      | none =>
        match CommandSpec.program.read a.rest with
        | .error e => .error (.program, e)
        | .ok b => (early? b).elim (.error (.program, .noSuchCommand name)) .ok

end Invocation

end SchemaClosure.CommandLine
