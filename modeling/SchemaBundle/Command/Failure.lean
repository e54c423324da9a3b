/-
How a command can fail.

Every failure has a message, a code with which the program ends, and the causes
below it, which are told when the message does not tell them already.
-/
import SchemaBundle.Golden
import SchemaBundle.Settings.Config

namespace SchemaBundle

/-- Why there is no configuration. -/
inductive ConfigFault where
  /-- The file that was asked for does not exist. -/
  | missingFile (path : String)
  /-- A variable of the environment names no format. -/
  | badFormat (name : String)
  /-- Any other reason. -/
  | other (reason : String)
  deriving DecidableEq

/-- The wording of the reason. -/
def ConfigFault.message : ConfigFault → String
  | .missingFile path => "configuration file " ++ path ++ " does not exist"
  | .badFormat name => "invalid " ++ Config.formatVariable ++ " value " ++ quoted name
  | .other reason => reason

/-- Why arguments do not go together. -/
inductive ArgumentFault where
  /-- A placeholder is given two files. -/
  | mappedTwice (placeholder : String)
  /-- Any other reason. -/
  | other (reason : String)
  deriving DecidableEq

/-- The wording of the reason. -/
def ArgumentFault.message : ArgumentFault → String
  | .mappedTwice placeholder => "placeholder " ++ quoted placeholder ++ " is mapped more than once"
  | .other reason => reason

/-- A failure of a command. -/
inductive Failure where
  /-- A file could not be read or written. -/
  | io (fault : FileFault)
  /-- An error in a document, a reference or a file. -/
  | document (error : Error)
  /-- A golden file does not agree. -/
  | golden (fault : Golden.Fault)
  /-- A file that is needed does not exist. -/
  | fileNotFound (path : String)
  /-- There is no configuration. -/
  | config (fault : ConfigFault)
  /-- The arguments do not go together. -/
  | arguments (fault : ArgumentFault)
  /-- A configuration file is not what its language and the settings ask for. -/
  | badConfig (language : ConfigLanguage)
  /-- Any other failure. -/
  | other (message : String)

namespace Failure

/-- The kind of a failure in one word. -/
def kind : Failure → String
  | .io _ => "io"
  | .document error => error.kind
  | .golden _ => "golden"
  | .fileNotFound _ => "file_not_found"
  | .config _ => "config"
  | .arguments _ => "invalid_args"
  | .badConfig .json => "json"
  | .badConfig .yaml => "yaml"
  | .badConfig .toml => "toml"
  | .other _ => "other"

/-- The wording of a failure. -/
def message : Failure → String
  | .io fault => "IO error: " ++ fault.message
  | .document error => error.message
  | .golden fault => fault.message
  | .fileNotFound path => "File not found: " ++ path
  | .config fault => "Configuration error: " ++ fault.message
  | .arguments fault => "Invalid arguments: " ++ fault.message
  | .badConfig .json => "JSON error: " ++ parserMessage
  | .badConfig .yaml => "YAML error: " ++ parserMessage
  | .badConfig .toml => "TOML error: " ++ parserMessage
  | .other message => message

/-- The code with which the program ends; errors in documents have one for each kind
that scripts tell apart. -/
def exitCode : Failure → Nat
  | .io _ => 1
  | .document (.invalidReference ..) => 2
  | .document (.unresolvableReference ..) => 3
  | .document (.unknownSchema ..) => 4
  | .document (.nameCollision ..) => 5
  | .document (.invalidDocument ..) => 6
  | .document (.unknownType ..) => 7
  | .document _ => 8
  | .fileNotFound _ => 9
  | .config _ => 10
  | .arguments _ => 11
  | .golden _ => 12
  | .badConfig .json => 13
  | .badConfig .yaml => 14
  | .badConfig .toml => 15
  | .other _ => 99

/-- Whether the user is told how to get help. -/
def showsHelp : Failure → Bool
  | .arguments _ => true
  | _ => false

/-- What stands in front of the message. -/
def label : Failure → String
  | .document error => "Error [" ++ error.kind ++ "]:"
  | .golden _ => "Golden mismatch:"
  | _ => "Error:"

/-- The wordings of the causes below a failure, nearest first. -/
def causes : Failure → List String
  | .io fault => [fault.message]
  | .document error => error.message :: error.causes
  | .golden (.io fault) => [Golden.Fault.message (.io fault), fault.message]
  | .golden fault => [fault.message]
  | .badConfig _ => [parserMessage]
  | _ => []

/-- A text with a cause, unless it tells the cause already. -/
def addCause (color : Bool) (text cause : String) : String :=
  if Text.occursIn cause.toList text.toList then text
  else text ++ Ansi.paintIf color .dimmed ("\n  caused by: " ++ cause)

/-- A failure as it is told to the user. -/
def format (failure : Failure) (color : Bool) : String :=
  failure.causes.foldl (addCause color)
    (Ansi.paintIf color .boldRed failure.label ++ " " ++ failure.message)

end Failure

end SchemaBundle
