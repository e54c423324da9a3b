/-
Composing a description of interfaces.

A template names the schemas it needs by placeholders, and each placeholder is given
a type.  The schemas of the types are generated and embedded into the template as if
the placeholders were documents, and the definitions are moved to the components.
Nothing is generated before every placeholder of the template is known to have a
type.
-/
import SchemaBundle.Components

namespace SchemaBundle

/-- What is composed. -/
structure Composition where
  /-- The template. -/
  base : Option Json
  /-- The type of every placeholder, by the identity of the placeholder. -/
  types : List (String × String)
  /-- Which absolute urls of the template are placeholders as well. -/
  absolute : Classifier
  /-- The largest number put behind a name. -/
  maxSuffix : Nat

namespace Composition

/-- Nothing to compose yet. -/
def empty : Composition :=
  ⟨none, [], Classifier.bySuffix Classifier.defaultSuffixes, Naming.defaultMaxSuffix⟩

/-- Fill a placeholder with the schema of a type. -/
def withSchema (c : Composition) (placeholder type : String) : Composition :=
  { c with types := Entries.insert (Identity.resolve none placeholder) type c.types }

/-- Fill several placeholders. -/
def withSchemas (c : Composition) (placeholders : List (String × String)) : Composition :=
  placeholders.foldl (fun c entry => c.withSchema entry.1 entry.2) c

/-- Which references of the template are followed. -/
def classify (c : Composition) : Classifier :=
  Classifier.forTemplate c.absolute

/-- The placeholder that a reference of the template names; ordinary links and
references within the template name none. -/
def placeholder? (c : Composition) (raw : String) : Except Error (Option String) :=
  let ifFollowed (url : String) : Option String :=
    if c.classify url = .link then none else some url
  if raw.toList.contains '#' then
    match Reference.parse raw with
    | .error reason => .error (.invalidReference raw reason.message)
    | .ok reference => .ok (reference.url.bind ifFollowed)
  else .ok (ifFollowed raw)

/-- Fail at the first placeholder among the references that has no type. -/
def checkRefs (c : Composition) : List String → Except Error Unit
  | [] => .ok ()
  | raw :: rest =>
    match c.placeholder? raw with
    | .error error => .error error
    | .ok none => c.checkRefs rest
    | .ok (some url) =>
      if Entries.contains c.types (Identity.resolve none url) then c.checkRefs rest
      else .error (.unknownSchema url)

/-- The loader that answers a placeholder with the generated schema of its type. -/
def loader (c : Composition) (generator : Generator) : Loader := fun identity =>
  match Entries.get? c.types identity with
  | none => .error (.error (.unknownSchema identity))
  | some type =>
    match (generator type).bind Schema.toDocument with
    | .ok document => .ok document
    | .error error => .error (.error error)

/-- The names of the components that the template has already. -/
def existingComponents (base : Json) : List String :=
  match Pointer.resolve? base Components.path with
  | some (.object schemas) => Entries.keys schemas
  | _ => []

/-- The embedder that fills a template. -/
def embedder (c : Composition) (base : Json) : Embedder :=
  { mount := .atRoot Schema.definitionsKey
    classify := c.classify
    naming := Naming.byType c.types
    reserved := existingComponents base
    maxSuffix := c.maxSuffix }

/-- The documents that the placeholders stand for, as far as they can be generated. -/
def documents (c : Composition) (generator : Generator) : List (String × Json) :=
  c.types.filterMap fun (identity, _) =>
    match c.loader generator identity with
    | .ok document => some (identity, document)
    | .error _ => none

/-- Compose the document. The placeholders are finitely many, so their documents
bound the steps of the embedding. -/
def build (c : Composition) (generator : Generator) : Report Json :=
  match c.base with
  | none => ⟨[], .failed (.invalidDocument .noBase)⟩
  | some base =>
    if !base.isObject then ⟨[], .failed (.invalidDocument .baseNotObject)⟩
    else
      match c.checkRefs base.refs with
      | .error error => ⟨[], .failed error⟩
      | .ok () =>
        let e := c.embedder base
        let report := e.run (c.loader generator) (e.stepBound (c.documents generator)) base
        ⟨report.loaded, report.outcome.andThen fun r => Components.convert r.document⟩

/-- The types that the generator is asked for when the placeholders with the given
identities are loaded. -/
def typesOf (c : Composition) (loaded : List String) : List String :=
  loaded.filterMap (Entries.get? c.types)

end Composition

end SchemaBundle
