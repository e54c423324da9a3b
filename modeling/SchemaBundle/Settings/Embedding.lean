/-
The settings of an embedder.

Settings that are not given have their usual values.  The mount path is kept as it is
written and read only when an embedder is made of the settings.
-/
import SchemaBundle.Embed.Basic
import SchemaBundle.Settings.Basic

namespace SchemaBundle

/-- The settings of an embedder. -/
structure EmbedSettings where
  /-- The text of the mount path. -/
  mountPath : String
  /-- The suffixes of schema files. -/
  suffixes : List String
  /-- The largest number put behind a name. -/
  maxSuffix : Nat
  deriving DecidableEq

namespace EmbedSettings

/-- The usual settings. -/
def standard : EmbedSettings :=
  ⟨Embedder.standard.mount.format, Classifier.defaultSuffixes, Naming.defaultMaxSuffix⟩

/-- The names of the settings, in the order in which a list gives them. -/
def names : List String :=
  ["mount_path", "suffixes", "max_name_suffix"]

/-- Read the settings. -/
def ofSetting? (rules : SettingRules) (s : Setting) : Option EmbedSettings := do
  let entries ← s.entries? rules names
  return {
    mountPath := ← Setting.entry? entries "mount_path" Setting.text? standard.mountPath
    suffixes := ←
      Setting.entry? entries "suffixes" (Setting.list? Setting.text?) standard.suffixes
    maxSuffix := ← Setting.entry? entries "max_name_suffix" Setting.count? standard.maxSuffix }

end EmbedSettings

/-- The embedder of the given settings. -/
def Embedder.ofSettings (s : EmbedSettings) : Except Error Embedder :=
  (MountPath.parse s.mountPath).map fun mount =>
    { Embedder.standard with
      mount
      classify := Classifier.bySuffix s.suffixes
      maxSuffix := s.maxSuffix }

end SchemaBundle
