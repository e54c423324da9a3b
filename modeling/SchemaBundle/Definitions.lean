/-
Shared definitions.

The definitions are a map from names to schemas, walked in key order.  The order in
which the names were first inserted is kept beside it.
-/
import SchemaBundle.Json.Basic

namespace SchemaBundle

/-- Named schemas, with the order of their insertion. -/
structure Definitions where
  /-- The schemas by name, in key order. -/
  entries : List (String × Json)
  /-- The names in the order of their first insertion. -/
  order : List String

namespace Definitions

/-- No definitions. -/
def empty : Definitions :=
  ⟨[], []⟩

/-- The schema of a name. -/
def get? (d : Definitions) (name : String) : Option Json :=
  Entries.get? d.entries name

/-- Whether a name has a schema. -/
def contains (d : Definitions) (name : String) : Bool :=
  Entries.contains d.entries name

/-- Insert or replace a definition. -/
def insert (d : Definitions) (name : String) (schema : Json) : Definitions :=
  { entries := Entries.insert name schema d.entries
    order := if d.contains name then d.order else d.order ++ [name] }

/-- How many definitions there are. -/
def size (d : Definitions) : Nat :=
  d.entries.length

/-- The names in key order. -/
def names (d : Definitions) : List String :=
  Entries.keys d.entries

/-- The definitions as an object. -/
def toJson (d : Definitions) : Json :=
  .object d.entries

end Definitions

end SchemaBundle
