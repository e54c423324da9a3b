/-
Schemas with the definitions they refer to.

A schema is a root and named definitions.  As one document it is the root with the
definitions in its `definitions` member; `ofDocument` takes that member out again
and `toDocument` puts it back.
-/
import SchemaBundle.Embed.Basic

namespace SchemaBundle

/-- A root schema and the definitions that belong to it. -/
structure Schema where
  /-- The root. -/
  root : Json
  /-- The definitions, in key order. -/
  definitions : List (String × Json)
  deriving Inhabited

namespace Schema

/-- The member that holds definitions in a document. -/
def definitionsKey : String :=
  "definitions"

/-- A schema without definitions. -/
def plain (root : Json) : Schema :=
  ⟨root, []⟩

/-- Take the definitions out of a document. A `definitions` member that is not an
object belongs to the root. -/
def ofDocument : Json → Except Error Schema
  | .object members =>
    match Entries.get? members definitionsKey with
    | some (.object definitions) =>
      .ok ⟨.object (Entries.erase members definitionsKey), definitions⟩
    | _ => .ok ⟨.object members, []⟩
  | _ => .error (.invalidDocument .generatedNotObject)

/-- The schema as one document; without definitions that is the root. -/
def toDocument (schema : Schema) : Except Error Json :=
  match schema.definitions with
  | [] => .ok schema.root
  | definitions =>
    match schema.root with
    | .object members => .ok (.object (Entries.insert definitionsKey (.object definitions) members))
    | _ => .error (.invalidDocument .definitionsWithoutObject)

end Schema

/-- A source of schemas by type name. -/
abbrev Generator := String → Except Error Schema

namespace Generator

/-- The generator of a map from type names to schemas. -/
def ofSchemas (schemas : List (String × Schema)) : Generator := fun type =>
  match Entries.get? schemas type with
  | some schema => .ok schema
  | none => .error (.unknownType type)

/-- Generate a schema and embed the documents that it refers to. A schema that is
not an object refers to nothing. -/
def generateEmbedded (generator : Generator) (loader : Loader) (steps : Nat) (type : String) :
    Report Schema :=
  match (generator type).bind Schema.toDocument with
  | .error error => ⟨[], .failed error⟩
  | .ok document =>
    if !document.isObject then ⟨[], .done (.plain document)⟩
    else
      let report := Embedder.standard.run loader steps document
      ⟨report.loaded, report.outcome.andThen fun r => Schema.ofDocument r.document⟩

/-- Generate a schema; with a loader, the documents it refers to are embedded. -/
def generate (generator : Generator) (loader? : Option Loader) (steps : Nat) (type : String) :
    Report Schema :=
  match loader? with
  | none => ⟨[], .ofExcept (generator type)⟩
  | some loader => generator.generateEmbedded loader steps type

/-- Generate a schema as one document. -/
def generateDocument (generator : Generator) (loader? : Option Loader) (steps : Nat)
    (type : String) : Outcome Json :=
  (generator.generate loader? steps type).outcome.andThen Schema.toDocument

end Generator

end SchemaBundle
