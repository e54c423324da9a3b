/-
The arguments of the program.

The program has two commands.  Some options may stand in front of the command or
behind it, the others behind it only; where an option stands twice, once in front and
once behind, the one behind counts.  The value of an option is judged when the next
argument that is understood has been met, or at the end, so that an argument that is
not understood is told first.
-/
import SchemaBundle.Settings.OutputFormat

namespace SchemaBundle

/-! ### Schema mappings -/

/-- Why a text is no pair of a placeholder and a file. -/
inductive MappingFault where
  /-- There is no equals sign. -/
  | noFile (raw : String)
  /-- Nothing stands in front of the equals sign. -/
  | emptyPlaceholder (raw : String)
  /-- Nothing stands behind the equals sign. -/
  | emptyFile (raw : String)
  deriving DecidableEq

/-- The wording of the reason. -/
def MappingFault.message : MappingFault → String
  | .noFile raw => "expected PLACEHOLDER=FILE, got '" ++ raw ++ "'"
  | .emptyPlaceholder raw => "missing placeholder in '" ++ raw ++ "'"
  | .emptyFile raw => "missing schema file in '" ++ raw ++ "'"

/-- The pair of a placeholder and a file that a text writes with an equals sign. -/
def parseMapping (raw : String) : Except MappingFault (String × String) :=
  match Text.splitOnce? '=' raw.toList with
  | none => .error (.noFile raw)
  | some (placeholder, file) =>
    if placeholder.isEmpty then .error (.emptyPlaceholder raw)
    else if file.isEmpty then .error (.emptyFile raw)
    else .ok (String.ofList placeholder, String.ofList file)

/-! ### Invocations -/

/-- The name of a command. -/
inductive CommandName where
  | embed
  | compose
  deriving DecidableEq

/-- What a command is to do. -/
inductive Task where
  /-- Embed what a document refers to. -/
  | embed (document : String) (mount : Option String)
  /-- Fill the placeholders of a template. -/
  | compose (base : String) (schemas : List (String × String))
  deriving DecidableEq

/-- What the program is asked to do. -/
structure Invocation where
  /-- How often more words were asked for. -/
  verbose : Nat
  /-- Whether quiet was asked for. -/
  quiet : Bool
  /-- The configuration file. -/
  config : Option String
  /-- The format of printed documents. -/
  format : Option OutputFormat
  /-- Whether colours are not wanted. -/
  noColor : Bool
  /-- What to do. -/
  task : Task
  /-- Where to save the result. -/
  saveTo : Option String
  /-- The golden file to compare the result with. -/
  golden : Option String
  deriving DecidableEq

/-- How often more words were asked for; quiet takes it back. -/
def Invocation.verbosity (i : Invocation) : Nat :=
  if i.quiet then 0 else i.verbose

/-- Why the program is not asked to do anything. -/
inductive UsageFault where
  /-- Help was asked for. -/
  | help
  /-- The version was asked for, of a command or of the program. -/
  | version (command : Option CommandName)
  /-- There are no arguments. -/
  | nothingGiven
  /-- There is no command. -/
  | missingCommand
  /-- An argument stands in place of a command. -/
  | unknownCommand
  /-- An argument is not understood. -/
  | unknownArgument
  /-- An option has a value that it does not take. -/
  | unwantedValue
  /-- An option has no value, an empty one or one out of a list. -/
  | badValue
  /-- The value of an option is not in its form. -/
  | malformedValue
  /-- Two options exclude each other, or one stands twice. -/
  | conflict
  /-- An argument that is needed is not there. -/
  | missingArgument
  deriving DecidableEq

/-- Whether the user got what was asked for. -/
def UsageFault.isAnswer : UsageFault → Bool
  | .help => true
  | .version _ => true
  | _ => false

/-- The code with which the program ends. -/
def UsageFault.exitCode (fault : UsageFault) : Nat :=
  if fault.isAnswer then 0 else 2

namespace Arguments

/-! ### Options -/

/-- An option. -/
inductive Opt where
  | verbose
  | quiet
  | config
  | output
  | noColor
  | help
  | version
  | mount
  | schema
  | saveTo
  | golden
  /-- The document, which is named by its position. -/
  | document
  deriving DecidableEq

/-- Whether an option takes a value. -/
def Opt.takesValue : Opt → Bool
  | .verbose => false
  | .quiet => false
  | .noColor => false
  | .help => false
  | .version => false
  | _ => true

/-- The options that may stand everywhere, by their long names. -/
def commonNames : List (String × Opt) :=
  [("verbose", .verbose), ("quiet", .quiet), ("config", .config), ("output", .output),
    ("no-color", .noColor), ("help", .help), ("version", .version)]

/-- The options that may stand behind a command only, by their long names. -/
def ownNames : Option CommandName → List (String × Opt)
  | none => []
  | some .embed => [("mount", .mount), ("save-to", .saveTo), ("golden", .golden)]
  | some .compose => [("schema", .schema), ("save-to", .saveTo), ("golden", .golden)]

/-- The option of a long name. -/
def long? (level : Option CommandName) (name : String) : Option Opt :=
  (commonNames ++ ownNames level).lookup name

/-- The option of a letter. -/
def short? (level : Option CommandName) (letter : Char) : Option Opt :=
  match letter with
  | 'v' => some .verbose
  | 'q' => some .quiet
  | 'c' => some .config
  | 'o' => some .output
  | 'h' => some .help
  | 'V' => some .version
  | 's' => if level = some .compose then some .schema else none
  | _ => none

/-! ### What was given -/

/-- What was given in front of a command or behind it. -/
structure Given where
  verbose : Nat := 0
  quiet : Bool := false
  config : Option String := none
  format : Option OutputFormat := none
  noColor : Bool := false
  mount : Option String := none
  schemas : List (String × String) := []
  saveTo : Option String := none
  golden : Option String := none
  document : Option String := none
  deriving DecidableEq

/-- Whether an option that must not stand twice stands already. -/
def Given.has (g : Given) : Opt → Bool
  | .quiet => g.quiet
  | .config => g.config.isSome
  | .output => g.format.isSome
  | .noColor => g.noColor
  | .mount => g.mount.isSome
  | .saveTo => g.saveTo.isSome
  | .golden => g.golden.isSome
  | .document => g.document.isSome
  | _ => false

/-- A path, which must not be empty. -/
def pathValue (value : String) : Except UsageFault String :=
  if value.isEmpty then .error .badValue else .ok value

/-- Give an option a value. -/
def Given.setValue (g : Given) (option : Opt) (value : String) : Except UsageFault Given :=
  if g.has option then .error .conflict
  else
    match option with
    | .config => return { g with config := some (← pathValue value) }
    | .saveTo => return { g with saveTo := some (← pathValue value) }
    | .golden => return { g with golden := some (← pathValue value) }
    | .document => return { g with document := some (← pathValue value) }
    | .mount => return { g with mount := some value }
    | .output =>
      match OutputFormat.ofName? value with
      | some format => return { g with format := some format }
      | none => .error .badValue
    | .schema =>
      match parseMapping value with
      | .ok mapping => return { g with schemas := g.schemas ++ [mapping] }
      | .error _ => .error .malformedValue
    | _ => .error .unwantedValue

/-- The largest number of times that an option is counted. -/
def maxCount : Nat :=
  255

/-- Set an option without value. -/
def Given.setFlag (g : Given) (level : Option CommandName) (option : Opt) :
    Except UsageFault Given :=
  if g.has option then .error .conflict
  else
    match option with
    | .help => .error .help
    | .version => .error (.version level)
    | .verbose => .ok { g with verbose := min (g.verbose + 1) maxCount }
    | .quiet => .ok { g with quiet := true }
    | .noColor => .ok { g with noColor := true }
    | _ => .error .badValue

/-! ### Reading arguments -/

/-- The reader between two arguments. -/
structure State where
  /-- What was given. -/
  given : Given := {}
  /-- An option whose value was not judged yet; without a value it waits for one. -/
  pending : Option (Opt × Option String) := none
  /-- Whether two hyphens were met, behind which there are no options. -/
  trailing : Bool := false
  /-- How many arguments stood by themselves. -/
  positions : Nat := 0

/-- Whether an option waits for its value. -/
def State.isWaiting (s : State) : Bool :=
  match s.pending with
  | some (_, none) => true
  | _ => false

/-- Judge the value that was not judged yet. -/
def State.settle (s : State) : Except UsageFault State :=
  match s.pending with
  | none => .ok s
  | some (_, none) => .error .badValue
  | some (option, some value) =>
    return { s with given := ← s.given.setValue option value, pending := none }

/-- Meet an option with the value that is attached to it, if any. -/
def State.meet (s : State) (level : Option CommandName) (option : Opt)
    (attached : Option String) : Except UsageFault State := do
  if option.takesValue then
    let s ← s.settle
    match attached with
    | some value => return { s with given := ← s.given.setValue option value }
    | none => return { s with pending := some (option, none) }
  else if attached.isSome then .error .unwantedValue
  else
    let s ← s.settle
    return { s with given := ← s.given.setFlag level option }

/-- Meet an argument that starts with two hyphens. -/
def State.meetLong (s : State) (level : Option CommandName) (text : List Char) :
    Except UsageFault State :=
  let (name, attached) :=
    match Text.splitOnce? '=' text with
    | some (name, value) => (name, some (String.ofList value))
    | none => (text, none)
  match long? level (String.ofList name) with
  | some option => s.meet level option attached
  | none => .error .unknownArgument

/-- Meet letters behind a hyphen. What follows the letter of an option with a value is
the value. -/
def State.meetLetters (level : Option CommandName) : List Char → State → Except UsageFault State
  | [], s => .ok s
  | letter :: rest, s =>
    match short? level letter with
    | none => .error .unknownArgument
    | some option =>
      if option.takesValue then
        let attached :=
          match rest with
          | [] => none
          | '=' :: value => some (String.ofList value)
          | value => some (String.ofList value)
        s.meet level option attached
      else do State.meetLetters level rest (← s.meet level option none)

/-- Meet an argument that stands by itself. -/
def State.meetPosition (s : State) (level : Option CommandName) (text : String) :
    Except UsageFault State :=
  match level with
  | none =>
    if s.trailing && ["embed", "compose", "help"].contains text then .error .unknownArgument
    else .error .unknownCommand
  | some _ =>
    if s.positions = 0 then do
      let s ← s.settle
      return { s with pending := some (.document, some text), positions := 1 }
    else .error .unknownArgument

/-- Meet an argument that is no command. -/
def State.meetArgument (s : State) (level : Option CommandName) (text : String) :
    Except UsageFault State :=
  if s.trailing then s.meetPosition level text
  else
    match text.toList with
    | ['-', '-'] => .ok { s with trailing := true }
    | '-' :: '-' :: rest => s.meetLong level rest
    | '-' :: c :: rest => State.meetLetters level (c :: rest) s
    | _ =>
      match s.pending with
      | some (option, none) => .ok { s with pending := some (option, some text) }
      | _ => s.meetPosition level text

/-- The command of a name. -/
def command? (name : String) : Option CommandName :=
  if name = "embed" then some .embed else if name = "compose" then some .compose else none

/-- What comes of asking for help about the given names. -/
def helpAbout : List String → UsageFault
  | [] => .help
  | [name] => if (command? name).isSome || name = "help" then .help else .unknownCommand
  | _ => .unknownCommand

/-- Read the arguments in front of a command, up to the command and what follows it. -/
def readFront : State → List String → Except UsageFault (State × Option (CommandName × List String))
  | s, [] => .ok (s, none)
  | s, text :: rest =>
    let mayBeCommand := !s.trailing && !s.isWaiting
    if mayBeCommand && text = "help" then .error (helpAbout rest)
    else
      match if mayBeCommand then command? text else none with
      | some command => .ok (s, some (command, rest))
      | none => do readFront (← s.meetArgument none text) rest

/-- Read the arguments behind a command. -/
def readBehind (command : CommandName) : State → List String → Except UsageFault State
  | s, [] => .ok s
  | s, text :: rest => do readBehind command (← s.meetArgument (some command) text) rest

/-! ### Invocations -/

/-- The variable that names the configuration file. -/
def configVariable : String :=
  "REFWEAVE_CONFIG"

/-- Check the value of the variable where no option stands for it. -/
def checkVariable (g : Given) (lookup : String → Option String) : Except UsageFault Unit :=
  if g.config.isNone && lookup configVariable = some "" then .error .badValue else .ok ()

/-- Check options that exclude each other. -/
def checkConflicts (g : Given) : Except UsageFault Unit :=
  if g.quiet && g.verbose ≠ 0 then .error .conflict else .ok ()

/-- What was given behind a command, complete. -/
def behind (command : CommandName) (arguments : List String) (lookup : String → Option String) :
    Except UsageFault (String × Given) := do
  let s ← (← readBehind command {} arguments).settle
  checkVariable s.given lookup
  checkConflicts s.given
  match s.given.document with
  | some document => return (document, s.given)
  | none => .error .missingArgument

/-- What is missing when there is no command. -/
def withoutCommand (g : Given) (lookup : String → Option String) : UsageFault :=
  if g = {} && (lookup configVariable).isNone then .nothingGiven else .missingCommand

/-- What the program is asked to do by arguments and variables of the environment. -/
def parse (arguments : List String) (lookup : String → Option String) :
    Except UsageFault Invocation := do
  let (s, rest?) ← readFront {} arguments
  match rest? with
  | none =>
    let s ← s.settle
    checkVariable s.given lookup
    .error (withoutCommand s.given lookup)
  | some (command, rest) =>
    let (document, own) ← behind command rest lookup
    let front := (← s.settle).given
    checkVariable front lookup
    checkConflicts front
    return {
      verbose := if own.verbose = 0 then front.verbose else own.verbose
      quiet := front.quiet || own.quiet
      config := (own.config.or front.config).or (lookup configVariable)
      format := own.format.or front.format
      noColor := front.noColor || own.noColor
      task :=
        match command with
        | .embed => .embed document own.mount
        | .compose => .compose document own.schemas
      saveTo := own.saveTo
      golden := own.golden }

end Arguments

end SchemaBundle
