/-
Formats of printed documents.

Two formats are for people and two for other programs; all of them print the members
of a document in the order of their keys.
-/
import SchemaBundle.Yaml.Writer

namespace SchemaBundle

/-- A format of printed documents. -/
inductive OutputFormat where
  /-- Indented JSON among status lines. -/
  | human
  /-- JSON on one line. -/
  | json
  /-- YAML. -/
  | yaml
  /-- Indented JSON. -/
  | jsonPretty
  deriving DecidableEq

namespace OutputFormat

/-- All formats. -/
def all : List OutputFormat :=
  [.human, .json, .yaml, .jsonPretty]

/-- The name of a format. -/
def name : OutputFormat → String
  | .human => "human"
  | .json => "json"
  | .yaml => "yaml"
  | .jsonPretty => "json-pretty"

/-- The format of a name. -/
def ofName? (name : String) : Option OutputFormat :=
  all.find? fun format => format.name = name

/-- The format of a name in any case of letters. -/
def ofAnyCase? (name : String) : Option OutputFormat :=
  ofName? (Text.asciiLower name)

/-- The text of a value. -/
def write (format : OutputFormat) (value : Json) : String :=
  match format with
  | .json => value.compact
  | .jsonPretty => value.pretty
  | .human => value.pretty
  | .yaml => Yaml.write value

/-- The text of a document, its members in the order of their keys. -/
def writeDocument (format : OutputFormat) (document : Json) : String :=
  match format with
  | .human => document.canonical
  | .jsonPretty => document.canonical
  | .json => format.write document.sortKeys
  | .yaml => format.write document.sortKeys

end OutputFormat

end SchemaBundle
