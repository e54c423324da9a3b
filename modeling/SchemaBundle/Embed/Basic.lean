/-
Embedding external documents.

The references of the root are redirected first.  A reference to another document
makes that document be loaded and stored, and from then on its name is what the
reference points to.  What is stored waits on the worklist and is redirected in turn,
each piece with its references read in the document it was found in.  When nothing
waits any more, the definitions are added to the root at the mount path.

A loader may go on for ever with new documents, so a run is given a number of steps.
For a finite map of documents `stepBound` steps suffice, since every document is
loaded at most once.
-/
import SchemaBundle.Classifier
import SchemaBundle.Embed.Context
import SchemaBundle.Embed.Mount
import SchemaBundle.Identity
import SchemaBundle.Loader

namespace SchemaBundle

/-- How documents are embedded. -/
structure Embedder where
  /-- Where the definitions are kept. -/
  mount : MountPath
  /-- Which references are followed. -/
  classify : Classifier
  /-- The names proposed for documents. -/
  naming : Naming
  /-- Names that are never given. -/
  reserved : List String
  /-- The largest number put behind a name. -/
  maxSuffix : Nat

/-- The outcome of an embedding that succeeds. -/
structure Embedded where
  /-- The root with its references redirected and the definitions added. -/
  document : Json
  /-- The definitions that were added. -/
  definitions : Definitions
  /-- The name of every embedded document, by identity. -/
  names : List (String × String)

/-- How a run ends. -/
inductive Outcome (α : Type) where
  /-- It has a result. -/
  | done (result : α)
  /-- Something went wrong. -/
  | failed (error : Error)
  /-- The steps were used up. -/
  | unfinished

namespace Outcome

variable {α β : Type}

/-- The outcome of what either has a result or goes wrong. -/
def ofExcept : Except Error α → Outcome α
  | .ok result => .done result
  | .error error => .failed error

/-- Go on with the result. -/
def andThen (outcome : Outcome α) (next : α → Except Error β) : Outcome β :=
  match outcome with
  | .done result => ofExcept (next result)
  | .failed error => .failed error
  | .unfinished => .unfinished

end Outcome

/-- A run with the identities that the loader was asked for, in order. -/
structure Report (α : Type) where
  /-- The identities, in order. -/
  loaded : List String
  /-- How the run ended. -/
  outcome : Outcome α

namespace Embedder

/-- Definitions under `definitions`, schema files by suffix, names from files. -/
def standard : Embedder :=
  { mount := .atRoot "definitions"
    classify := Classifier.bySuffix Classifier.defaultSuffixes
    naming := Naming.fileStem
    reserved := []
    maxSuffix := Naming.defaultMaxSuffix }

/-! ### Reading a reference -/

/-- What the text of a reference means. -/
inductive Link where
  /-- It stays as it is. -/
  | keep
  /-- A place in the document that holds it. -/
  | inside (pointer : Pointer)
  /-- A place in another document. -/
  | outside (url : String) (pointer : Pointer)

/-- Read the text of a reference. A text without `#` names a whole document if that
is embeddable, and is an ordinary link otherwise. -/
def readLink (e : Embedder) (raw : String) : Except Error Link :=
  if raw.toList.contains '#' then
    match Reference.parse raw with
    | .error reason => .error (.invalidReference raw reason.message)
    | .ok reference =>
      match reference.url with
      | none => .ok (.inside reference.pointer)
      | some url =>
        if e.classify url = .link then .ok .keep else .ok (.outside url reference.pointer)
  else if e.classify raw = .link then .ok .keep
  else if raw = "" then .ok (.inside [])
  else .ok (.outside raw [])

/-- Where a reference in a definition of `identity` leads. A malformed one counts as
leading into the document; the error comes when it is redirected. -/
def refTarget (e : Embedder) (identity raw : String) : RefTarget :=
  match e.readLink raw with
  | .error _ => .document
  | .ok .keep => .fixed raw
  | .ok (.inside pointer) =>
    match e.mount.below? pointer with
    | some (key, _) => .definition key
    | none => .document
  | .ok (.outside url pointer) =>
    .fixed (Identity.resolve (some identity) url ++ "#" ++ Pointer.format pointer)

/-- Where a place of a document is after embedding: below the name of the document,
or below the name of one of its own definitions. -/
def place (e : Embedder) (resource : Resource) (pointer : Pointer) : Pointer :=
  let shared? := (e.mount.below? pointer).bind fun (key, rest) =>
    (Entries.get? resource.localNames key).map fun name => name :: rest
  e.mount.segments ++ shared?.getD (resource.name :: pointer)

/-- The text of a reference to a place of an embedded document. -/
def target (e : Embedder) (identity : String) (pointer : Pointer) : Embedding String := do
  match (← get).resource? identity with
  | some resource => return (Reference.internal (e.place resource pointer)).format
  | none => throw (.invalidDocument (.noName identity))

/-! ### Redirecting -/

/-- Load a document and store it with its own definitions, unless that was done. -/
def ensureEmbedded (e : Embedder) (loader : Loader) (identity : String) : Embedding Unit := do
  if ((← get).resource? identity).isSome then return
  let name ← Embedding.reserveResource identity (e.naming identity)
  modify fun c => { c with loaded := c.loaded ++ [identity] }
  match loader.fetch identity with
  | .error error => throw error
  | .ok document =>
    let (definitions, rest) := e.mount.takeDefinitions document
    modify fun c => c.store identity name rest
    Embedding.hoist e.refTarget identity definitions

/-- Redirect the text of a reference found in a document, or in the root. -/
def redirectRef (e : Embedder) (loader : Loader) (scope : Option String) (raw : String) :
    Embedding String := do
  match e.readLink raw with
  | .error error => throw error
  | .ok .keep => return raw
  | .ok (.inside pointer) =>
    match scope with
    | none => return raw
    | some identity => e.target identity pointer
  | .ok (.outside url pointer) =>
    let identity := Identity.resolve scope url
    e.ensureEmbedded loader identity
    e.target identity pointer

mutual

/-- Redirect every reference in a value found in a document, or in the root. -/
def redirect (e : Embedder) (loader : Loader) (scope : Option String) : Json → Embedding Json
  | .array items => do return .array (← redirectItems e loader scope items)
  | .object members => do return .object (← redirectMembers e loader scope members)
  | value => return value

/-- Redirect every reference in items. -/
def redirectItems (e : Embedder) (loader : Loader) (scope : Option String) :
    List Json → Embedding (List Json)
  | [] => return []
  | item :: rest => do
    let item ← redirect e loader scope item
    let rest ← redirectItems e loader scope rest
    return item :: rest

/-- Redirect every reference in members. -/
def redirectMembers (e : Embedder) (loader : Loader) (scope : Option String) :
    List (String × Json) → Embedding (List (String × Json))
  | [] => return []
  | (key, value) :: rest => do
    let value ←
      match refText? key value with
      | some raw => Json.string <$> e.redirectRef loader scope raw
      | none => redirect e loader scope value
    let rest ← redirectMembers e loader scope rest
    return (key, value) :: rest

end

/-! ### Running -/

/-- Redirect the definition that waits longest; `false` when none waits. -/
def step (e : Embedder) (loader : Loader) : Embedding Bool := do
  let c ← get
  match c.worklist with
  | [] => return false
  | pending :: rest =>
    set { c with worklist := rest }
    let raw := (c.definitions.get? pending.name).getD .null
    let redirected ← e.redirect loader (some pending.identity) raw
    modify fun c => c.complete pending.name redirected
    return true

/-- Take steps until nothing waits; `false` when that many steps were not enough. -/
def drain (e : Embedder) (loader : Loader) : Nat → Embedding Bool
  | 0 => do return (← get).worklist.isEmpty
  | steps + 1 => do if ← e.step loader then e.drain loader steps else return true

/-- The names that stand at the mount path of a root already. -/
def existingNames (e : Embedder) (root : Json) : Except Error (List String) :=
  match Pointer.resolve? root e.mount.segments with
  | some (.object existing) => .ok (Entries.keys existing)
  | some _ => .error (.invalidDocument (.mountTaken e.mount.format))
  | none => .ok []

/-- Redirect a root and everything it leads to, without adding the definitions yet;
`none` when the steps were used up. -/
def traverse (e : Embedder) (loader : Loader) (steps : Nat) (root : Json) :
    Embedding (Option Json) := do
  let document ← e.redirect loader none root
  return if ← e.drain loader steps then some document else none

/-- The result for a redirected root: the definitions are added to it. -/
def finish (e : Embedder) (c : Context) (document : Json) : Except Error Embedded :=
  (e.mount.addDefinitions c.definitions.entries document).map fun document =>
    ⟨document, c.definitions, c.assignedNames⟩

/-- Embed everything that a root refers to, in at most `steps` steps. -/
def run (e : Embedder) (loader : Loader) (steps : Nat) (root : Json) : Report Embedded :=
  if !root.isObject then ⟨[], .failed (.invalidDocument .rootNotObject)⟩
  else
    match e.existingNames root with
    | .error error => ⟨[], .failed error⟩
    | .ok existing =>
      let start := Context.start e.maxSuffix (e.reserved ++ existing)
      match e.traverse loader steps root start with
      | .ok (some document) c => ⟨c.loaded, .ofExcept (e.finish c document)⟩
      | .ok none c => ⟨c.loaded, .unfinished⟩
      | .error error c => ⟨c.loaded, .failed error⟩

/-- Steps that suffice for a finite map of documents: one for each document and one
for each definition of its own. -/
def stepBound (e : Embedder) (documents : List (String × Json)) : Nat :=
  documents.foldr
    (fun (_, document) steps => 1 + (e.mount.takeDefinitions document).1.length + steps) 0

/-- Embed the documents of a map that a root refers to. -/
def runOn (e : Embedder) (documents : List (String × Json)) (root : Json) : Report Embedded :=
  e.run (Loader.ofDocuments documents) (e.stepBound documents) root

end Embedder

end SchemaBundle
