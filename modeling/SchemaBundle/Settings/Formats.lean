/-
Settings in JSON and in YAML.

In JSON a word has one reading.  In YAML any word can be a text, and a plain one can
be a truth value or a number besides; an empty plain word also stands for an empty
list or group.
-/
import SchemaBundle.Json.Reader
import SchemaBundle.Settings.Basic
import SchemaBundle.Yaml.Value

namespace SchemaBundle

namespace Setting

/-! ### JSON -/

/-- A list may give a group; `null` marks a choice. -/
def jsonRules : SettingRules where
  listAsGroup := true
  longerLists := false
  isUnit
    | .word w => w.isNone
    | _ => false

mutual

/-- The settings of a JSON value. -/
def ofJson : Json → Setting
  | .null => .word { isNone := true }
  | .bool b => .word { flag? := some b }
  | .number (.int n) => .word { count? := if 0 ≤ n then some n.toNat else none }
  | .number (.double _) => .word {}
  | .string s => .word { text? := some s, choice? := some s }
  | .array items => .list (ofItems items)
  | .object members => .group (ofMembers members)

/-- The settings of items. -/
def ofItems : List Json → List Setting
  | [] => []
  | item :: rest => ofJson item :: ofItems rest

/-- The settings of members. -/
def ofMembers : List (String × Json) → List (String × Setting)
  | [] => []
  | (name, value) :: rest => (name, ofJson value) :: ofMembers rest

end

/-- The settings of a JSON text. -/
def ofJsonText? (text : String) : Option Setting :=
  (Json.readAsWritten? text).map ofJson

/-! ### YAML -/

/-- Lists and groups are different things. -/
def yamlRules : SettingRules where
  listAsGroup := false
  longerLists := false
  isUnit _ := false

/-- The number that a plain word is. -/
def plainCount? (text : String) : Option Nat :=
  match Yaml.whole? text.toList with
  | some (.fits n) => if 0 ≤ n then some n.toNat else none
  | _ => none

/-- Whether a word with a tag stands for no setting: no tag, or the tag of null. -/
def isNoneWord (tag : Option String) (text : String) : Bool :=
  match tag with
  | none => text.isEmpty || Yaml.isNullText text
  | some tag => tag = "tag:yaml.org,2002:null" && Yaml.isNullText text

/-- The name of a choice: a tag of its own on an empty word, or the text. -/
def wordChoice? (tag : Option String) (text : String) (plain : Bool) : Option String :=
  match Yaml.ownTag? tag with
  | some own =>
    if plain && (text.isEmpty || Yaml.isNullText text) then some (String.ofList (own.toList.drop 1))
    else none
  | none => some text

/-- The readings of a word. -/
def ofWord (tag : Option String) (text : String) (plain : Bool) : Word where
  text? := some text
  flag? := if plain then Yaml.truth? text else none
  count? := if plain then plainCount? text else none
  choice? := wordChoice? tag text plain
  isNone := plain && isNoneWord tag text
  isEmpty := plain && text.isEmpty

/-- Steps that replace aliases: the state is how many more may be replaced. -/
abbrev Replacing := StateM Nat

/-- What a node stands for, unless too many aliases were replaced. -/
def targetOf (d : Yaml.Document) (n : Yaml.Node) : Replacing (Option Yaml.Node) := do
  match n with
  | .alias number =>
    match ← get with
    | 0 => return none
    | left + 1 =>
      set left
      return d.anchor? number
  | n => return some n

/-- The name of an entry; only a word can be one. -/
def nameOf (d : Yaml.Document) (n : Yaml.Node) : Replacing (Option String) := do
  match ← targetOf d n with
  | some (.scalar _ text _) => return some text
  | _ => return none

/-- The settings of a node, with at most `depth` levels of lists and groups. A group
with an entry that has no name cannot be read. -/
def ofNode (d : Yaml.Document) (depth : Nat) (n : Yaml.Node) : Replacing Setting := do
  match ← targetOf d n, depth with
  | some (.scalar tag text plain), _ => return .word (ofWord tag text plain)
  | some (.sequence _ items), depth + 1 => return .list (← items.mapM (ofNode d depth))
  | some (.mapping _ entries), depth + 1 =>
    let entries ← entries.mapM fun (key, value) => do
      return (← nameOf d key, ← ofNode d depth value)
    match entries.mapM fun (name?, value) => name?.map fun name => (name, value) with
    | some entries => return .group entries
    | none => return .unreadable
  | _, _ => return .unreadable

/-- The settings of a YAML text; a text without document is an empty group. -/
def ofYamlText? (text : String) : Option Setting := do
  let d ← Yaml.document? text
  match d.root with
  | none => return .group []
  | some root => return ((ofNode d Yaml.maxDepth root).run (100 * d.events)).1

end Setting

end SchemaBundle
