/-
The formats of documents in files.

The name of a file tells its format.  A text that is not in the format of its file
is an error that names the file.
-/
import SchemaBundle.Error
import SchemaBundle.Files.Path
import SchemaBundle.Json.Reader
import SchemaBundle.Yaml.Writer

namespace SchemaBundle

/-- A format of documents. -/
inductive FileFormat where
  | yaml
  | json
  deriving DecidableEq

namespace FileFormat

/-- The format that the extension of a path names, in any case of letters. -/
def ofPath (path : String) : Except Error FileFormat :=
  match (Path.extension? path).map Text.lower with
  | some "yaml" => .ok .yaml
  | some "yml" => .ok .yaml
  | some "json" => .ok .json
  | _ => .error (.unsupportedFormat path)

/-- The usual extension of files in a format. -/
def extension : FileFormat → String
  | .yaml => "yaml"
  | .json => "json"

/-- The document that a text holds. -/
def read (format : FileFormat) (path text : String) : Except Error Json :=
  match format with
  | .json =>
    match Json.read? text with
    | some value => .ok value
    | none => .error (.json path)
  | .yaml =>
    match Yaml.value? text with
    | none => .error (.yaml path)
    | some value =>
      match value.toJson? with
      | some value => .ok value
      | none => .error (.json path)

/-- The text of a document. -/
def write (format : FileFormat) (document : Json) : String :=
  match format with
  | .json => document.pretty
  | .yaml => Yaml.write document

end FileFormat

end SchemaBundle
