/-
Settings of the log.

How often an invocation asks for more words decides about the log; a configuration
file can set the level only when an invocation does not ask, and variables of the
environment come last.
-/
import SchemaBundle.Settings.Basic
import SchemaBundle.Text.Lowercase

namespace SchemaBundle

/-- The layout of log lines. -/
inductive LogFormat where
  | compact
  | full
  | json
  deriving DecidableEq

namespace LogFormat

/-- The name of a layout. -/
def name : LogFormat → String
  | .compact => "compact"
  | .full => "full"
  | .json => "json"

/-- The layout of a name in any case of letters. -/
def ofName? (name : String) : Option LogFormat :=
  [compact, full, json].find? fun format => format.name = Text.lower name

end LogFormat

/-- What a configuration file says about the log. -/
structure LogSection where
  /-- The level. -/
  level : Option String
  /-- The name of the layout. -/
  format : Option String
  deriving DecidableEq

namespace LogSection

/-- A file that says nothing. -/
def silent : LogSection :=
  ⟨none, none⟩

/-- The names of the settings, in the order in which a list gives them. -/
def names : List String :=
  ["level", "format"]

/-- Read the settings. -/
def ofSetting? (rules : SettingRules) (s : Setting) : Option LogSection := do
  let entries ← s.entries? rules names
  let text := Setting.optional? Setting.text?
  return {
    level := ← Setting.entry? entries "level" text none
    format := ← Setting.entry? entries "format" text none }

end LogSection

/-- How the log is written. -/
structure LogSettings where
  /-- The level. -/
  level : String
  /-- The layout. -/
  format : LogFormat
  /-- Whether lines on a terminal are coloured. -/
  console : Bool
  /-- Whether lines name their thread. -/
  threadIds : Bool
  /-- Whether lines name the place in the program. -/
  sourceLocation : Bool
  /-- Whether the end of every span is told. -/
  spanEvents : Bool
  deriving DecidableEq

namespace LogSettings

/-- The settings when an invocation does not ask for more. -/
def standard : LogSettings :=
  ⟨"warn", .compact, true, false, false, false⟩

/-- The settings for how often an invocation asks for more. -/
def ofVerbosity : Nat → LogSettings
  | 0 => standard
  | 1 => { standard with level := "info" }
  | 2 => { standard with level := "debug", sourceLocation := true }
  | _ =>
    { standard with
      level := "trace", format := .full, sourceLocation := true, threadIds := true
      spanEvents := true }

/-- Apply what a configuration file says. -/
def withSection (s : LogSettings) (file : LogSection) (verbosity : Nat) : LogSettings :=
  { s with
    level := if verbosity = 0 then file.level.getD s.level else s.level
    format := (file.format.bind LogFormat.ofName?).getD s.format }

/-- The variable that sets the level. -/
def levelVariable : String :=
  "RUST_LOG"

/-- The variable that sets the layout. -/
def formatVariable : String :=
  "REFWEAVE_LOG_FORMAT"

/-- Apply variables of the environment. -/
def withEnvironment (s : LogSettings) (lookup : String → Option String) : LogSettings :=
  { s with
    level := (lookup levelVariable).getD s.level
    format := ((lookup formatVariable).bind LogFormat.ofName?).getD s.format }

/-- What is told when a variable names no layout. -/
def warning? (lookup : String → Option String) : Option String :=
  match lookup formatVariable with
  | some name =>
    if (LogFormat.ofName? name).isSome then none
    else some ("Warning: invalid log format '" ++ name ++ "', using default")
  | none => none

end LogSettings

end SchemaBundle
