/-
References inside values.

A reference is a member `$ref` whose value is a string.  Everything that follows or
changes references goes through the tree in the same order: items as they stand,
members in key order.
-/
import SchemaBundle.Json.Basic

namespace SchemaBundle

/-- The text of a reference, when a member of an object is one. -/
def refText? (key : String) (value : Json) : Option String :=
  if key = "$ref" then value.string? else none

namespace Json

mutual

/-- The texts of all references in a value, in key order. -/
def refs : Json → List String
  | .array items => refsOfItems items
  | .object members => refsOfMembers members
  | _ => []

/-- The texts of all references in items. -/
def refsOfItems : List Json → List String
  | [] => []
  | item :: rest => item.refs ++ refsOfItems rest

/-- The texts of all references in members. -/
def refsOfMembers : List (String × Json) → List String
  | [] => []
  | (key, value) :: rest =>
    (match refText? key value with
      | some raw => [raw]
      | none => value.refs) ++ refsOfMembers rest

end

mutual

/-- Change the text of every reference in a value. -/
def mapRefs (f : String → String) : Json → Json
  | .array items => .array (mapRefsOfItems f items)
  | .object members => .object (mapRefsOfMembers f members)
  | value => value

/-- Change the text of every reference in items. -/
def mapRefsOfItems (f : String → String) : List Json → List Json
  | [] => []
  | item :: rest => item.mapRefs f :: mapRefsOfItems f rest

/-- Change the text of every reference in members. -/
def mapRefsOfMembers (f : String → String) : List (String × Json) → List (String × Json)
  | [] => []
  | (key, value) :: rest =>
    (key,
      match refText? key value with
      | some raw => .string (f raw)
      | none => value.mapRefs f) :: mapRefsOfMembers f rest

end

end Json

end SchemaBundle
