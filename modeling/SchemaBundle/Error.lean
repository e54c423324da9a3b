/-
What can go wrong with a document.

Every error is final for the call that raised it.  An error is a cause with the
data it needs; its wording is `Error.message`, and the errors below it, down to the
first cause, are `Error.causes`.
-/
import SchemaBundle.Reference

namespace SchemaBundle

/-- Why the file system refused. -/
inductive FileFault where
  /-- A component of the path does not exist. -/
  | notFound
  /-- A component of the path that is not the last one is a file. -/
  | notADirectory
  /-- The path names a directory where a file is needed. -/
  | isADirectory
  /-- The path names an entry where a new one is needed. -/
  | alreadyExists
  /-- The content is not text. -/
  | notText
  /-- The path, or a component of it, is too long. -/
  | nameTooLong
  /-- The path holds a character with the code zero. -/
  | zeroInName
  /-- Any other reason. -/
  | other (text : String)
  deriving DecidableEq

/-- The wording of the reason. -/
def FileFault.message : FileFault → String
  | .notFound => "No such file or directory (os error 2)"
  | .notADirectory => "Not a directory (os error 20)"
  | .isADirectory => "Is a directory (os error 21)"
  | .alreadyExists => "File exists (os error 17)"
  | .notText => "stream did not contain valid UTF-8"
  | .nameTooLong => "File name too long (os error 36)"
  | .zeroInName => "file name contained an unexpected NUL byte"
  | .other text => text

/-- Why a document cannot be used as it is. -/
inductive DocumentFault where
  /-- The text of the mount path is not a pointer. -/
  | badMount (path : String) (reason : Pointer.Malformed)
  /-- The mount path names the whole document. -/
  | mountAtRoot
  /-- The document to embed into is not an object. -/
  | rootNotObject
  /-- What stands at the mount path is not an object. -/
  | mountTaken (mount : String)
  /-- A value on the way to the mount path is not an object. -/
  | mountParentNotObject (mount : String)
  /-- What stands at the mount path is not an object. -/
  | mountNotObject (mount : String)
  /-- A reference names a document that has no name yet. -/
  | noName (identity : String)
  /-- There is no template. -/
  | noBase
  /-- The template is not an object. -/
  | baseNotObject
  /-- The document to convert is not an object. -/
  | documentNotObject
  /-- A member that holds named schemas is not an object. -/
  | memberNotObject (member : String)
  /-- A generated schema is not an object. -/
  | generatedNotObject
  /-- A schema that is not an object has definitions. -/
  | definitionsWithoutObject
  /-- Any other reason. -/
  | other (reason : String)
  deriving DecidableEq

/-- The wording of the reason. -/
def DocumentFault.message : DocumentFault → String
  | .badMount path reason => "invalid mount path '" ++ path ++ "': " ++ reason.message
  | .mountAtRoot => "mount path must name a node below the document root"
  | .rootNotObject => "root must be a JSON object to host definitions"
  | .mountTaken mount => "'" ++ mount ++ "' exists but is not an object"
  | .mountParentNotObject mount =>
    "cannot mount definitions at '" ++ mount ++ "': parent is not an object"
  | .mountNotObject mount => "'" ++ mount ++ "' is not an object"
  | .noName identity => "no definition reserved for '" ++ identity ++ "'"
  | .noBase => "no base document configured"
  | .baseNotObject => "base document must be a JSON object"
  | .documentNotObject => "document must be a JSON object"
  | .memberNotObject member => "'" ++ member ++ "' is not an object"
  | .generatedNotObject => "generated schema must be a JSON object"
  | .definitionsWithoutObject => "a root schema with definitions must be a JSON object"
  | .other reason => reason

mutual

/-- An error in a document, a reference or a file. -/
inductive Error where
  /-- A text that should be a reference is none. -/
  | invalidReference (reference reason : String)
  /-- The document of an identity could not be had. -/
  | unresolvableReference (url : String) (cause : Cause)
  /-- A template names a placeholder that stands for nothing. -/
  | unknownSchema (placeholder : String)
  /-- No unused name could be found. -/
  | nameCollision (name identity : String)
  /-- A document cannot be used as it is. -/
  | invalidDocument (fault : DocumentFault)
  /-- A type is not known. -/
  | unknownType (name : String)
  /-- A file could not be read. -/
  | io (path : String) (fault : FileFault)
  /-- A file does not hold JSON. -/
  | json (path : String)
  /-- A file does not hold YAML. -/
  | yaml (path : String)
  /-- The name of a file tells no format. -/
  | unsupportedFormat (path : String)
  /-- A file lies outside its base directory. -/
  | pathTraversal (reference baseDir : String)

/-- Why a loader has no document. -/
inductive Cause where
  /-- A reason in words. -/
  | text (message : String)
  /-- An error of this library. -/
  | error (error : Error)
  /-- Words about another cause. -/
  | context (message : String) (cause : Cause)

end

instance : Inhabited Error := ⟨.unknownType ""⟩

/-- What stands for the reason why a text could not be parsed. -/
def parserMessage : String :=
  "<parser message>"

/-- A name in quotes. -/
def quoted (name : String) : String :=
  "'" ++ name ++ "'"

mutual

/-- The wording of an error. -/
def Error.message : Error → String
  | .invalidReference reference reason =>
    "Invalid reference " ++ quoted reference ++ ": " ++ reason
  | .unresolvableReference url cause =>
    "Unable to resolve reference to " ++ quoted url ++ ": " ++ cause.message
  | .unknownSchema placeholder =>
    "Unknown schema placeholder " ++ quoted placeholder ++ ": no type is configured for it"
  | .nameCollision name identity =>
    "Cannot assign a unique definition name " ++ quoted name ++ " for " ++ quoted identity
  | .invalidDocument fault => "Invalid document: " ++ fault.message
  | .unknownType name => "Unknown type " ++ quoted name
  | .io path fault => "Failed to read file " ++ quoted path ++ ": " ++ fault.message
  | .json path => "Failed to parse JSON file " ++ quoted path ++ ": " ++ parserMessage
  | .yaml path => "Failed to parse YAML file " ++ quoted path ++ ": " ++ parserMessage
  | .unsupportedFormat path =>
    "Unsupported file format for " ++ quoted path ++ ". Expected .yaml, .yml, or .json"
  | .pathTraversal reference baseDir =>
    "Path traversal detected in reference " ++ quoted reference ++ " from " ++ quoted baseDir

/-- The wording of a cause. -/
def Cause.message : Cause → String
  | .text message => message
  | .error error => error.message
  | .context message _ => message

end

mutual

/-- The wordings of the causes below an error, nearest first. -/
def Error.causes : Error → List String
  | .unresolvableReference _ cause => cause.message :: cause.chain
  | .io _ fault => [fault.message]
  | .json _ => [parserMessage]
  | .yaml _ => [parserMessage]
  | _ => []

/-- The wordings of what lies below a cause. -/
def Cause.chain : Cause → List String
  | .text _ => []
  | .error error => error.causes
  | .context _ cause => cause.message :: cause.chain

end

/-- The kind of an error in one word. -/
def Error.kind : Error → String
  | .invalidReference .. => "invalid_reference"
  | .unresolvableReference .. => "unresolvable_reference"
  | .unknownSchema .. => "unknown_schema"
  | .nameCollision .. => "name_collision"
  | .invalidDocument .. => "invalid_document"
  | .unknownType .. => "unknown_type"
  | .io .. => "io"
  | .json .. => "json"
  | .yaml .. => "yaml"
  | .unsupportedFormat .. => "unsupported_format"
  | .pathTraversal .. => "path_traversal"

/-- The path that an error is about. -/
def Error.path? : Error → Option String
  | .io path _ => some path
  | .json path => some path
  | .yaml path => some path
  | .unsupportedFormat path => some path
  | .pathTraversal _ baseDir => some baseDir
  | _ => none

end SchemaBundle
