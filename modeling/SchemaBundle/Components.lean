/-
Moving definitions to components.

Descriptions of interfaces keep their schemas below `components/schemas`.  The
definitions of a document are merged with the components already there, and every
reference to a place below `definitions` is changed to the new place, in links to
other documents as well.
-/
import SchemaBundle.Schema

namespace SchemaBundle

namespace Components

/-- The path of the node that holds the components. -/
def path : Pointer :=
  ["components", "schemas"]

/-- The place of a pointer after the move: below `definitions` it changes. -/
def movePointer? : Pointer → Option Pointer
  | first :: second :: rest =>
    if first = Schema.definitionsKey then some (path ++ second :: rest) else none
  | _ => none

/-- The text of a reference after the move; what is not a reference stays. -/
def moveRef (raw : String) : String :=
  match Reference.parse raw with
  | .error _ => raw
  | .ok reference =>
    match movePointer? reference.pointer with
    | some pointer => (reference.withPointer pointer).format
    | none => raw

/-- Every reference in a value after the move. -/
def moveRefs : Json → Json :=
  Json.mapRefs moveRef

/-- The object under a key, which counts as empty when it is missing. -/
def objectAt (members : List (String × Json)) (key name : String) :
    Except Error (List (String × Json)) :=
  match Entries.get? members key with
  | none => .ok []
  | some (.object inner) => .ok inner
  | some _ => .error (.invalidDocument (.memberNotObject name))

/-- Add definitions to components; the same key with another schema is refused. -/
def merge (components : List (String × Json)) :
    List (String × Json) → Except Error (List (String × Json))
  | [] => .ok components
  | (name, schema) :: rest =>
    match Entries.get? components name with
    | some existing =>
      if existing == schema then merge (Entries.insert name schema components) rest
      else .error (.nameCollision name "components/schemas")
    | none => merge (Entries.insert name schema components) rest

/-- The document with its definitions among its components. -/
def convert (document : Json) : Except Error Json :=
  match moveRefs document with
  | .object members => do
    let definitions ← objectAt members Schema.definitionsKey "definitions"
    let rest := Entries.erase members Schema.definitionsKey
    let components ← objectAt rest "components" "components"
    let schemas ← objectAt components "schemas" "components/schemas"
    let merged ← merge schemas definitions
    let components := Entries.insert "schemas" (.object merged) components
    return .object (Entries.insert "components" (.object components) rest)
  | _ => .error (.invalidDocument .documentNotObject)

end Components

end SchemaBundle
