/-
The state of one embedding.

Every document that is met gets a name before it is read, so that documents that
refer to each other, or to themselves, find a name and not a loop.  A document is
stored under its name without its own definitions, which are stored under names of
their own or share the name of an equal definition.  Everything stored waits on the
worklist until its references are redirected.
-/
import SchemaBundle.Definitions
import SchemaBundle.Embed.Sharing
import SchemaBundle.Json.Refs
import SchemaBundle.Naming

namespace SchemaBundle

/-- Where a document has its place. -/
structure Resource where
  /-- The name of the document. -/
  name : String
  /-- The names of the document's own definitions, by their keys. -/
  localNames : List (String × String)

/-- A definition that documents may share. -/
structure Hoisted where
  /-- Its name. -/
  name : String
  /-- The document it was found in. -/
  owner : String
  /-- Its content as it was found. -/
  content : Json

/-- A definition whose references have not been redirected. -/
structure Pending where
  /-- Its name. -/
  name : String
  /-- The document it was found in. -/
  identity : String
  deriving DecidableEq

/-- The state of an embedding. -/
structure Context where
  /-- The documents met so far, by identity. -/
  resources : List (String × Resource)
  /-- The definitions stored so far. -/
  definitions : Definitions
  /-- The definitions that may be shared, by the key they were found under. -/
  hoisted : List (String × List Hoisted)
  /-- The names in use. -/
  allocator : NameAllocator
  /-- The definitions that wait to be redirected. -/
  worklist : List Pending
  /-- The identities that were asked for, in order. -/
  loaded : List String

/-- A step of an embedding: it may fail, and the state is kept when it does. -/
abbrev Embedding := EStateM Error Context

/-- Where a reference in a document's own definition leads. -/
inductive RefTarget where
  /-- To a definition of the same document, given by its key. -/
  | definition (key : String)
  /-- To a place that does not depend on the document it is found in. -/
  | fixed (place : String)
  /-- To some other part of the document. -/
  | document
  deriving DecidableEq

namespace Context

/-- The state before anything was met. -/
def start (maxSuffix : Nat) (reserved : List String) : Context :=
  { resources := []
    definitions := .empty
    hoisted := []
    allocator := (NameAllocator.empty maxSuffix).reserveAll reserved
    worklist := []
    loaded := [] }

/-- The place of a document. -/
def resource? (c : Context) (identity : String) : Option Resource :=
  Entries.get? c.resources identity

/-- The name of every document met, by identity. -/
def assignedNames (c : Context) : List (String × String) :=
  Entries.mapValues Resource.name c.resources

/-- Store a definition and put it on the worklist. -/
def store (c : Context) (identity name : String) (content : Json) : Context :=
  { c with
    definitions := c.definitions.insert name content
    worklist := c.worklist ++ [⟨name, identity⟩] }

/-- Offer a definition to later documents. -/
def offer (c : Context) (key : String) (definition : Hoisted) : Context :=
  let others := (Entries.get? c.hoisted key).getD []
  { c with hoisted := Entries.insert key (others ++ [definition]) c.hoisted }

/-- Replace the content of a definition. -/
def complete (c : Context) (name : String) (content : Json) : Context :=
  { c with definitions := c.definitions.insert name content }

/-! ### Sharing -/

/-- What a reference in equal content demands for the content to be shared: a
sibling with a name, nothing, or that it is not shared. -/
def requirement? (target : String → String → RefTarget) (identity : String) (keys : List String)
    (owner : String) (ownerNames : List (String × String)) (raw : String) :
    Option (Option (String × String)) :=
  match target identity raw, target owner raw with
  | .fixed here, .fixed there => if here = there then some none else none
  | .definition sibling, .definition _ =>
    if keys.contains sibling then
      (Entries.get? ownerNames sibling).map fun name => some (sibling, name)
    else none
  | _, _ => none

/-- The definitions that the content of a key could share. -/
def shareCandidates (c : Context) (target : String → String → RefTarget) (identity : String)
    (keys : List String) (key : String) (content : Json) : List Sharing.Candidate :=
  let equal := ((Entries.get? c.hoisted key).getD []).filter fun h => h.content == content
  equal.filterMap fun h => do
    let owner ← c.resource? h.owner
    let requirements ← content.refs.mapM
      (requirement? target identity keys h.owner owner.localNames)
    return ⟨h.name, requirements.filterMap id⟩

/-- The candidates of every key of a document's own definitions. -/
def viable (c : Context) (target : String → String → RefTarget) (identity : String)
    (definitions : List (String × Json)) : Sharing.Candidates :=
  let keys := Entries.keys definitions
  let all := definitions.map fun (key, content) =>
    (key, c.shareCandidates target identity keys key content)
  all.filter fun (_, candidates) => !candidates.isEmpty

end Context

namespace Embedding

/-- Reserve the name of a document that is met for the first time. -/
def reserveResource (identity base : String) : Embedding String := do
  let c ← get
  match c.allocator.allocate base identity with
  | .error e => throw e
  | .ok (name, allocator) =>
    set { c with allocator, resources := Entries.insert identity ⟨name, []⟩ c.resources }
    return name

/-- Give a name to one of a document's own definitions: the shared one, or a new one
under which it is stored. -/
def hoistOne (identity : String) (shared : List (String × String)) (key : String)
    (content : Json) : Embedding String := do
  match Entries.get? shared key with
  | some name => return name
  | none =>
    let c ← get
    match c.allocator.allocate key identity with
    | .error e => throw e
    | .ok (name, allocator) =>
      set (({ c with allocator }.offer key ⟨name, identity, content⟩).store identity name content)
      return name

/-- Give names to several definitions, in key order. -/
def hoistAll (identity : String) (shared : List (String × String)) :
    List (String × Json) → Embedding (List (String × String))
  | [] => return []
  | (key, content) :: rest => do
    let name ← hoistOne identity shared key content
    let names ← hoistAll identity shared rest
    return (key, name) :: names

/-- Take a document's own definitions into the shared ones. -/
def hoist (target : String → String → RefTarget) (identity : String)
    (definitions : List (String × Json)) : Embedding Unit := do
  let c ← get
  let shared := Sharing.resolve (c.viable target identity definitions)
  let localNames ← hoistAll identity shared definitions
  modify fun c =>
    match c.resource? identity with
    | some r => { c with resources := Entries.insert identity { r with localNames } c.resources }
    | none => c

end Embedding

end SchemaBundle
