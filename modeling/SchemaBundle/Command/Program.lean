/-
The whole program.

The program reads its arguments and its configuration, does what it is asked for, and
ends with a code.  What it prints goes to one place, and what it has to tell about
failures to another.
-/
import SchemaBundle.Command.Run

namespace SchemaBundle

/-- What the program finds when it starts. -/
structure Surroundings where
  /-- The files. -/
  files : FileSystem
  /-- The variables of the environment. -/
  lookup : String → Option String
  /-- The directory for configurations of the user. -/
  configDirectory : Option String
  /-- Whether the output is a terminal. -/
  isTerminal : Bool
  /-- How many milliseconds a command takes. -/
  elapsed : Nat

/-- What the program leaves behind. -/
structure Ending where
  /-- The code with which it ended. -/
  exitCode : Nat
  /-- What it printed. -/
  output : String
  /-- What it told about failures. -/
  errors : String
  /-- The files. -/
  files : FileSystem

namespace Program

/-- The name of the program. -/
def name : String :=
  "refweave"

/-- The version of the program. -/
def version : String :=
  "0.1.0"

/-! ### Configuration -/

/-- The configuration in a file. -/
def readConfig (fs : FileSystem) (path : String) : Except Failure Config := do
  match fs.read path with
  | .error fault => .error (.io fault)
  | .ok text =>
    let language := Config.languageOf path
    match Config.ofText? language text with
    | some config => .ok { config with source := some path }
    | none => .error (.badConfig language)

/-- What is told about a configuration file that is passed over. -/
def configWarning (path : String) (failure : Failure) : String :=
  "Warning: Failed to load config from " ++ Text.escaped path ++ ": " ++ failure.message ++ "\n"

/-- The configuration in the first of several files that has one, and what is told about
those before it. -/
def firstConfig (fs : FileSystem) : List String → Config × String
  | [] => (.standard, "")
  | path :: rest =>
    if !fs.contains path then firstConfig fs rest
    else
      match readConfig fs path with
      | .ok config => (config, "")
      | .error failure =>
        let (config, warnings) := firstConfig fs rest
        (config, configWarning path failure ++ warnings)

/-- The configuration of a file, or of the first of the usual ones, without variables
of the environment. -/
def configFrom (fs : FileSystem) (directory : Option String) (file? : Option String) :
    Except Failure Config × String :=
  match file? with
  | some path =>
    if fs.contains path then (readConfig fs path, "")
    else (.error (.config (.missingFile path)), "")
  | none =>
    let (config, warnings) := firstConfig fs (Config.usualPaths directory)
    (.ok config, warnings)

/-- Apply variables of the environment. -/
def override (lookup : String → Option String) (config : Config) : Except Failure Config :=
  match config.withEnvironment lookup with
  | .ok config => .ok config
  | .error format => .error (.config (.badFormat format))

/-- The configuration, and what is told about files that are passed over. -/
def loadConfig (s : Surroundings) (file? : Option String) : Except Failure Config × String :=
  let (config, warnings) := configFrom s.files s.configDirectory file?
  (config.bind (override s.lookup), warnings)

/-! ### Usage -/

/-- How the program is used. -/
def usage : String :=
  "Embed external JSON Schemas and compose API documents\n\n" ++
  "Usage: " ++ name ++ " [OPTIONS] <COMMAND>\n\n" ++
  "Commands:\n" ++
  "  embed <DOCUMENT> [--mount <POINTER>]\n" ++
  "  compose <BASE> [-s, --schema <PLACEHOLDER=FILE>]...\n" ++
  "  help [COMMAND]\n\n" ++
  "Options of both commands:\n" ++
  "      --save-to <OUTPUT_FILE>\n" ++
  "      --golden <GOLDEN_FILE>\n\n" ++
  "Options:\n" ++
  "  -v, --verbose...\n" ++
  "  -q, --quiet\n" ++
  "  -c, --config <CONFIG> [env: REFWEAVE_CONFIG]\n" ++
  "  -o, --output <OUTPUT> [human, json, yaml, json-pretty]\n" ++
  "      --no-color\n" ++
  "  -h, --help\n" ++
  "  -V, --version\n"

/-- The name of the program with a command. -/
def nameOf : Option CommandName → String
  | none => name
  | some .embed => name ++ "-embed"
  | some .compose => name ++ "-compose"

/-- What an invocation is told that asks for nothing to be done. -/
def usageText : UsageFault → String
  | .help => usage
  | .version command => nameOf command ++ " " ++ version ++ "\n"
  | .nothingGiven => usage
  | .missingCommand => "error: a command is required\n"
  | .unknownCommand => "error: unrecognized command\n"
  | .unknownArgument => "error: unexpected argument\n"
  | .unwantedValue => "error: unexpected value for an option\n"
  | .badValue => "error: invalid value for an option\n"
  | .malformedValue => "error: malformed value for an option\n"
  | .conflict => "error: options cannot be used together or more than once\n"
  | .missingArgument => "error: a required argument was not provided\n"

/-- How the program ends when it is asked for nothing to be done. -/
def endUsage (s : Surroundings) (fault : UsageFault) : Ending :=
  let text := usageText fault
  if fault.isAnswer then ⟨fault.exitCode, text, "", s.files⟩
  else ⟨fault.exitCode, "", text, s.files⟩

/-! ### Running -/

/-- What is told about a failure. -/
def failureText (failure : Failure) (color : Bool) : String :=
  failure.format color ++ "\n" ++
    if failure.showsHelp then "\nFor more information, try '--help'\n" else ""

/-- What a command depends on. -/
def setup (s : Surroundings) (i : Invocation) (config : Config) : Setup :=
  { config
    output :=
      { format := (i.format.or config.format).getD .human
        color := s.isTerminal && !i.noColor && config.color
        quiet := i.quiet
        verbosity := i.verbosity }
    golden := .ofEnvironment s.lookup
    elapsed := s.elapsed }

/-- What is told about the settings of the log. -/
def logWarning (s : Surroundings) : String :=
  match LogSettings.warning? s.lookup with
  | some warning => warning ++ "\n"
  | none => ""

/-- Do what an invocation asks for. -/
def perform (s : Surroundings) (i : Invocation) : Ending :=
  let color := s.isTerminal && !i.noColor
  match loadConfig s i.config with
  | (.error failure, warnings) =>
    ⟨failure.exitCode, "", warnings ++ failureText failure color, s.files⟩
  | (.ok config, warnings) =>
    let told := warnings ++ logWarning s
    match (Command.perform (setup s i config) i).run.run ⟨s.files, ""⟩ with
    | (.ok (), session) => ⟨0, session.printed, told, session.files⟩
    | (.error failure, session) =>
      ⟨failure.exitCode, session.printed, told ++ failureText failure color, session.files⟩

/-- Run the program. -/
def run (s : Surroundings) (arguments : List String) : Ending :=
  match Arguments.parse arguments s.lookup with
  | .error fault => endUsage s fault
  | .ok i => perform s i

end Program

end SchemaBundle
