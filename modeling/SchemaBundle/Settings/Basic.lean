/-
Settings before it is known what they are settings of.

A configuration text says at each place a single word, a list or named entries.  What
a word may be read as is for the format of the text to say, so a word carries its
readings.  A group of settings reads its entries by name, ignores the names it does
not know, and refuses a name that it knows and meets twice.
-/
import SchemaBundle.Entries

namespace SchemaBundle

/-- What a single word may be read as. -/
structure Word where
  /-- The text it is. -/
  text? : Option String := none
  /-- The truth value it is. -/
  flag? : Option Bool := none
  /-- The number it is. -/
  count? : Option Nat := none
  /-- The name of a choice it is. -/
  choice? : Option String := none
  /-- Whether it stands for no setting where one may be left out. -/
  isNone : Bool := false
  /-- Whether it may stand for an empty list or an empty group. -/
  isEmpty : Bool := false

/-- What a configuration text says at one place. -/
inductive Setting where
  /-- A single word. -/
  | word (word : Word)
  /-- A list. -/
  | list (items : List Setting)
  /-- Named entries in the order of the text. -/
  | group (entries : List (String × Setting))
  /-- Something that no setting can be read from. -/
  | unreadable
  deriving Inhabited

/-- How the format of a text lets groups be written. -/
structure SettingRules where
  /-- Whether a list may give the entries of a group in their order. -/
  listAsGroup : Bool
  /-- Whether such a list may be longer than the group. -/
  longerLists : Bool
  /-- Whether a group of one entry with this value names a choice. -/
  isUnit : Setting → Bool

namespace Setting

/-- The text at a place. -/
def text? : Setting → Option String
  | .word w => w.text?
  | _ => none

/-- The truth value at a place. -/
def flag? : Setting → Option Bool
  | .word w => w.flag?
  | _ => none

/-- The number at a place. -/
def count? : Setting → Option Nat
  | .word w => w.count?
  | _ => none

/-- The name of a choice at a place. -/
def choice? (rules : SettingRules) : Setting → Option String
  | .word w => w.choice?
  | .group [(name, value)] => if rules.isUnit value then some name else none
  | _ => none

/-- A setting that may be left out. -/
def optional? {α : Type} (read : Setting → Option α) : Setting → Option (Option α)
  | .word w => if w.isNone then some none else (read (.word w)).map some
  | setting => (read setting).map some

/-- The items of a list. -/
def list? {α : Type} (read : Setting → Option α) : Setting → Option (List α)
  | .list items => items.mapM read
  | .word w => if w.isEmpty then some [] else none
  | _ => none

/-- A map from names to settings, the last of several entries with one name
winning. -/
def map? {α : Type} (read : Setting → Option α) : Setting → Option (List (String × α))
  | .group entries => do
    let pairs ← entries.mapM fun (name, value) => (read value).map fun v => (name, v)
    return Entries.ofPairs pairs
  | .word w => if w.isEmpty then some [] else none
  | _ => none

/-- Whether a name occurs twice in a list. -/
def hasTwice (names : List String) (name : String) : Bool :=
  1 < (names.filter (· = name)).length

/-- The entries of a group with the given names, in their order. -/
def entries? (rules : SettingRules) (names : List String) :
    Setting → Option (List (String × Setting))
  | .group entries =>
    if names.any (hasTwice (entries.map Prod.fst)) then none else some entries
  | .list items =>
    if rules.listAsGroup && (rules.longerLists || items.length ≤ names.length) then
      some (names.zip items)
    else none
  | .word w => if w.isEmpty then some [] else none
  | .unreadable => none

/-- The setting of a name among entries, or the one that applies when it is not
given. -/
def entry? {α : Type} (entries : List (String × Setting)) (name : String)
    (read : Setting → Option α) (standard : α) : Option α :=
  match entries.lookup name with
  | some setting => read setting
  | none => some standard

end Setting

end SchemaBundle
