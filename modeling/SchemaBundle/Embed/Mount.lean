/-
The place of the shared definitions in a document.

A mount path names a node below the root: the keys of the objects on the way, and
the key of the node.  The same path is where a loaded document keeps the definitions
of its own; they are taken out of it before it is stored.
-/
import SchemaBundle.Error

namespace SchemaBundle

/-- A pointer to a node below the root. -/
structure MountPath where
  /-- The keys on the way to the parent of the node. -/
  parents : Pointer
  /-- The key of the node. -/
  key : String
  deriving DecidableEq

namespace MountPath

/-- The segments of the path. -/
def segments (mount : MountPath) : Pointer :=
  mount.parents ++ [mount.key]

/-- The text of the path. -/
def format (mount : MountPath) : String :=
  Pointer.format mount.segments

/-- The node of the root with a key. -/
def atRoot (key : String) : MountPath :=
  ⟨[], key⟩

/-- The mount path with the given segments; there has to be one. -/
def ofSegments? (segments : Pointer) : Option MountPath :=
  segments.getLast?.map fun key => ⟨segments.dropLast, key⟩

/-- The mount path that a text writes. -/
def parse (text : String) : Except Error MountPath :=
  match Pointer.parse text with
  | .error reason => .error (.invalidDocument (.badMount text reason))
  | .ok segments =>
    match ofSegments? segments with
    | none => .error (.invalidDocument .mountAtRoot)
    | some mount => .ok mount

/-- The node that a pointer into a document's own definitions names, and the rest of
the pointer below it. -/
def below? (mount : MountPath) (pointer : Pointer) : Option (String × Pointer) :=
  if Pointer.startsWith pointer mount.segments then
    match pointer.drop mount.segments.length with
    | key :: rest => some (key, rest)
    | [] => none
  else none

/-! ### Taking definitions out -/

/-- Take the object under a key away from a value that is found by following keys of
objects: the object's members, and the value without it. -/
def takeFrom? : Pointer → String → Json → Option (List (String × Json) × Json)
  | [], key, value =>
    match value with
    | .object members =>
      match Entries.get? members key with
      | some (.object taken) => some (taken, .object (Entries.erase members key))
      | _ => none
    | _ => none
  | parent :: parents, key, value =>
    match value with
    | .object members =>
      match Entries.get? members parent with
      | some child =>
        (takeFrom? parents key child).map fun (taken, rest) =>
          (taken, .object (Entries.insert parent rest members))
      | none => none
    | _ => none

/-- The definitions of a document's own, and the document without them. A document
that has no object at the mount path has none. -/
def takeDefinitions (mount : MountPath) (document : Json) : List (String × Json) × Json :=
  (takeFrom? mount.parents mount.key document).getD ([], document)

/-! ### Putting definitions in -/

/-- Add entries to the object found by following the rest of a path, making the
objects that are missing on the way. -/
def addAt (mount : MountPath) (additions : List (String × Json)) :
    Pointer → Json → Except Error Json
  | [], value =>
    match value with
    | .object members => .ok (.object (Entries.insertAll members additions))
    | _ => .error (.invalidDocument (.mountNotObject mount.format))
  | segment :: rest, value =>
    match value with
    | .object members =>
      match addAt mount additions rest ((Entries.get? members segment).getD (.object [])) with
      | .ok child => .ok (.object (Entries.insert segment child members))
      | .error e => .error e
    | _ => .error (.invalidDocument (.mountParentNotObject mount.format))

/-- The document with the entries added to its mount node. -/
def addDefinitions (mount : MountPath) (additions : List (String × Json)) (document : Json) :
    Except Error Json :=
  addAt mount additions mount.segments document

end MountPath

end SchemaBundle
