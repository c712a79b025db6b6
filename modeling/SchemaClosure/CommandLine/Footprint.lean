import SchemaClosure.CommandLine.Program

/-!
# The footprint of a command

The places that a command looks at or writes to, as far as they are known from what has been read so
far: the paths among its arguments, and those that its configuration mentions once that can be read.
-/

namespace SchemaClosure

/-- The places that are passed when a path is followed, its end included. -/
def Path.places (home : List String) (p : Path) : List (List String) :=
  let start := if p.isAbsolute then [] else home
  (List.range (p.names.length + 1)).map fun n => Path.descend start (p.names.take n)

namespace Configuration

/-- The paths that a configuration file mentions. -/
def mentioned (fs : FileSystem) (path : Path) : List Path :=
  let value := (fs.read path).toOption.bind fun text => (Yaml.parse 0 text).toOption
  match value with
  | some (.mapping _ content) =>
    let base := (fs.resolve path).parent
    (schemaPaths base (Mapping.field "schema" content)).toOption.getD []
      ++ ((outputSection base (Mapping.field "output" content)).toOption.bind (·.1)).toList
  | _ => []

end Configuration

namespace CommandLine

def Command.paths (fs : FileSystem) : Command → List Path
  | .generateConfig output => [.of output]
  | .filter job =>
    job.configuration :: (PruneJob.given job.output).toList.map Path.of
      ++ Configuration.mentioned fs job.configuration
  | .inspect configuration _ => .of configuration :: Configuration.mentioned fs (.of configuration)
  | .wrap input options output =>
    [.of input, .of output, Wrapper.builtinPath fs.toHost options.wrapper,
     Wrapper.customPlace fs none options.wrapper]

/-- The places of what the arguments of the program ask for. -/
def footprint (fs : FileSystem) (arguments : List String) : List (List String) :=
  match Invocation.ofArguments arguments with
  | .ok (.run _ command) => ((command.paths fs).flatMap (Path.places fs.home)).eraseDups
  | _ => []

end CommandLine

end SchemaClosure
