/-
The configuration of the program.

A configuration file is in the format that its extension names, JSON when it names
none.  What it leaves out has its usual value.  Files that it names are seen from its
own directory.  Variables of the environment override the file.
-/
import SchemaBundle.Files.Path
import SchemaBundle.Settings.Embedding
import SchemaBundle.Settings.Formats
import SchemaBundle.Settings.Logging
import SchemaBundle.Settings.OutputFormat
import SchemaBundle.Toml.Reader

namespace SchemaBundle

/-- The configuration. -/
structure Config where
  /-- The settings of the embedder. -/
  embedder : EmbedSettings
  /-- The schema files of placeholders, in the order of the placeholders. -/
  schemas : List (String × String)
  /-- The format of printed documents. -/
  format : Option OutputFormat
  /-- Whether colours are wanted. -/
  color : Bool
  /-- The settings of the log. -/
  logging : LogSection
  /-- The file that was read. -/
  source : Option String

/-- The language of a configuration file. -/
inductive ConfigLanguage where
  | json
  | yaml
  | toml
  deriving DecidableEq

namespace Config

/-- The usual configuration. -/
def standard : Config :=
  ⟨.standard, [], none, true, .silent, none⟩

/-! ### Reading -/

/-- The schema files of placeholders. -/
def schemasOf? (rules : SettingRules) (s : Setting) : Option (List (String × String)) := do
  let entries ← s.entries? rules ["schemas"]
  Setting.entry? entries "schemas" (Setting.map? Setting.text?) standard.schemas

/-- The format of printed documents and whether colours are wanted. -/
def outputOf? (rules : SettingRules) (s : Setting) : Option (Option OutputFormat × Bool) := do
  let entries ← s.entries? rules ["format", "color"]
  let format (s : Setting) : Option OutputFormat := (s.choice? rules).bind OutputFormat.ofName?
  return (← Setting.entry? entries "format" (Setting.optional? format) standard.format,
    ← Setting.entry? entries "color" Setting.flag? standard.color)

/-- Read the settings. -/
def ofSetting? (rules : SettingRules) (s : Setting) : Option Config := do
  let entries ← s.entries? rules ["embedder", "compose", "output", "logging"]
  let (format, color) ←
    Setting.entry? entries "output" (outputOf? rules) (standard.format, standard.color)
  return {
    embedder := ← Setting.entry? entries "embedder" (EmbedSettings.ofSetting? rules) .standard
    schemas := ← Setting.entry? entries "compose" (schemasOf? rules) standard.schemas
    format
    color
    logging := ← Setting.entry? entries "logging" (LogSection.ofSetting? rules) .silent
    source := none }

/-- The language that the extension of a path names. -/
def languageOf (path : String) : ConfigLanguage :=
  match Path.extension? path with
  | some "yaml" => .yaml
  | some "yml" => .yaml
  | some "toml" => .toml
  | _ => .json

/-- The configuration that a text in a language holds. -/
def ofText? (language : ConfigLanguage) (text : String) : Option Config :=
  match language with
  | .json => (Setting.ofJsonText? text).bind (ofSetting? Setting.jsonRules)
  | .yaml => (Setting.ofYamlText? text).bind (ofSetting? Setting.yamlRules)
  | .toml => (Toml.settings? text).bind (ofSetting? Toml.rules)

/-! ### Variables -/

/-- The variable that sets the mount path. -/
def mountVariable : String :=
  "REFWEAVE_MOUNT_PATH"

/-- The variable that sets the format of printed documents. -/
def formatVariable : String :=
  "REFWEAVE_OUTPUT_FORMAT"

/-- Apply variables of the environment; the value of the one for the format is refused
when it names no format. -/
def withEnvironment (c : Config) (lookup : String → Option String) : Except String Config :=
  let c :=
    match lookup mountVariable with
    | some mountPath => { c with embedder := { c.embedder with mountPath } }
    | none => c
  match lookup formatVariable with
  | none => .ok c
  | some name =>
    match OutputFormat.ofAnyCase? name with
    | some format => .ok { c with format := some format }
    | none => .error name

/-! ### Files -/

/-- A path as the configuration file means it. -/
def resolve (c : Config) (path : String) : String :=
  match c.source.bind Path.parent? with
  | some directory => Path.join directory path
  | none => path

/-- The schema files of placeholders, seen from the working directory. -/
def mappings (c : Config) : List (String × String) :=
  Entries.mapValues c.resolve c.schemas

/-- Where a configuration file is looked for. -/
def usualPaths (directory : Option String) : List String :=
  let own :=
    match directory with
    | some directory =>
      ["config.yaml", "config.json", "config.toml"].map
        (Path.join (Path.join directory "refweave"))
    | none => []
  ["refweave.yaml", "refweave.json"] ++ own

end Config

end SchemaBundle
