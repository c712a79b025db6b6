import SchemaClosure.CommandLine.Similarity
import SchemaClosure.Text.Pieces
import SchemaClosure.Text.Quoted

/-!
# Options and usage errors

What options a command has, and reading arguments by them. Long options take their value behind an
equals sign or as the next argument, short ones may be written together, and two hyphens end the
options. Options may stand between other arguments where the command allows it.
-/

namespace SchemaClosure.CommandLine

/-- An option: its spellings, and whether a value belongs to it. -/
structure OptionSpec where
  names : List String
  takesValue : Bool
  deriving DecidableEq, Repr

/-- A command: what is written before its options, what is written for its arguments, its options, and
whether options may follow other arguments. -/
structure CommandSpec where
  path : String
  arguments : String
  options : List OptionSpec
  interspersed : Bool
  deriving DecidableEq, Repr

/-- Why arguments do not fit a command. -/
inductive UsageError where
  | noSuchOption (name : String) (suggestions : List String)
  | needsValue (name : String)
  | takesNoValue (name : String)
  | missingOption (name : String)
  | invalidChoice (option value : String) (choices : List String)
  | extraArguments (arguments : List String)
  | noSuchCommand (name : String)
  | missingCommand
  deriving DecidableEq, Repr

namespace UsageError

/-- What is suggested in place of an unknown option. -/
def suggestionText (suggestions : List String) : String :=
  match Text.sorted suggestions with
  | [] => ""
  | [s] => s!" Did you mean {s}?"
  | many =>
    let names := Text.join ", " many
    s!" (Possible options: {names})"

def message : UsageError → String
  | .noSuchOption name suggestions => s!"No such option: {name}" ++ suggestionText suggestions
  | .needsValue name => s!"Option {Text.quoted name} requires an argument."
  | .takesNoValue name => s!"Option {Text.quoted name} does not take a value."
  | .missingOption name => s!"Missing option '{name}'."
  | .invalidChoice option value choices =>
    let names := Text.join ", " (choices.map Text.quoted)
    s!"Invalid value for '{option}': {Text.quoted value} is not one of {names}."
  | .extraArguments arguments =>
    let plural := if arguments.length = 1 then "" else "s"
    let given := Text.join " " arguments
    s!"Got unexpected extra argument{plural} ({given})"
  | .noSuchCommand name => s!"No such command {Text.quoted name}."
  | .missingCommand => "Missing command."

/-- Whether the usage of the command stands before the message. It does not where an option and its
value do not fit together. -/
def showsUsage : UsageError → Bool
  | .needsValue _ => false
  | .takesNoValue _ => false
  | _ => true

def usage (c : CommandSpec) : String := s!"Usage: {c.path} {c.arguments}\n"

def text (c : CommandSpec) (e : UsageError) : String :=
  let hint := usage c ++ s!"Try '{c.path} -h' for help.\n\n"
  (if e.showsUsage then hint else "") ++ s!"Error: {e.message}\n"

end UsageError

def helpOption : OptionSpec := ⟨["-h", "--help"], false⟩

namespace OptionSpec

/-- The name that stands for the option. -/
def key (o : OptionSpec) : String := o.names.head?.getD ""

def isLong (name : String) : Bool := Text.startsWith "--" name

end OptionSpec

/-- The options that are given, by the first of their spellings and with their values, in order, and the
other arguments. -/
structure Arguments where
  given : List (String × String)
  rest : List String
  deriving DecidableEq, Repr

namespace CommandSpec

def option? (c : CommandSpec) (name : String) : Option OptionSpec :=
  c.options.find? (·.names.contains name)

def longNames (c : CommandSpec) : List String :=
  (c.options.flatMap (·.names)).filter OptionSpec.isLong

/-- What is in an argument: options that are complete, and the last one if its value is still to come,
with its spelling. -/
abbrev Piece := List (String × String) × Option (String × String)

/-- Reads the letters of short options written together. -/
def readShort (c : CommandSpec) : List Char → Except UsageError Piece
  | [] => .ok ([], none)
  | letter :: rest =>
    let name := String.ofList ['-', letter]
    match c.option? name with
    | none => .error (.noSuchOption name [])
    | some o =>
      if !o.takesValue then do
        let (given, waiting) ← c.readShort rest
        return ((o.key, "") :: given, waiting)
      else if rest.isEmpty then .ok ([], some (o.key, name))
      else .ok ([(o.key, String.ofList rest)], none)

/-- Reads an argument that starts with a hyphen. -/
def readOption (c : CommandSpec) (argument : String) : Except UsageError Piece :=
  let (name, value) :=
    match Chars.cutAt? ['='] argument.toList with
    | some (name, value) => (String.ofList name, some (String.ofList value))
    | none => (argument, none)
  match (c.option? name).filter fun _ => OptionSpec.isLong name with
  | some o =>
    match o.takesValue, value with
    | true, some v => .ok ([(o.key, v)], none)
    | true, none => .ok ([], some (o.key, name))
    | false, some _ => .error (.takesNoValue name)
    | false, none => .ok ([(o.key, "")], none)
  | none =>
    if OptionSpec.isLong argument then
      .error (.noSuchOption name (Similarity.suggestions name c.longNames))
    else c.readShort (argument.toList.drop 1)

/-- Reads arguments; `waiting` is an option whose value comes next, with its spelling. -/
def readFrom (c : CommandSpec) (waiting : Option (String × String)) :
    List String → Except UsageError Arguments
  | [] =>
    match waiting with
    | some (_, name) => .error (.needsValue name)
    | none => .ok ⟨[], []⟩
  | argument :: rest =>
    match waiting with
    | some (key, _) => do
      let more ← c.readFrom none rest
      return { more with given := (key, argument) :: more.given }
    | none =>
      if argument = "--" then .ok ⟨[], rest⟩
      else if Text.startsWith "-" argument && argument ≠ "-" then do
        let (given, waiting) ← c.readOption argument
        let more ← c.readFrom waiting rest
        return { more with given := given ++ more.given }
      else if c.interspersed then do
        let more ← c.readFrom none rest
        return { more with rest := argument :: more.rest }
      else .ok ⟨[], argument :: rest⟩

def read (c : CommandSpec) (arguments : List String) : Except UsageError Arguments :=
  c.readFrom none arguments

end CommandSpec

namespace Arguments

def last? (a : Arguments) (key : String) : Option String :=
  (a.given.reverse.lookup key)

def has (a : Arguments) (key : String) : Bool := (a.last? key).isSome

/-- The value of an option that must be given. -/
def required (a : Arguments) (key : String) : Except UsageError String :=
  match a.last? key with
  | some v => .ok v
  | none => .error (.missingOption key)

/-- Refuses other arguments than options. -/
def noMore (a : Arguments) : Except UsageError Unit :=
  if a.rest.isEmpty then .ok () else .error (.extraArguments a.rest)

end Arguments

end SchemaClosure.CommandLine
