/-
Where external documents come from.

A loader answers an identity with a document or with the reason why there is none.
-/
import SchemaBundle.Error

namespace SchemaBundle

/-- A source of documents. -/
abbrev Loader := String → Except Cause Json

namespace Loader

/-- The loader of a map from identities to documents. -/
def ofDocuments (documents : List (String × Json)) : Loader := fun identity =>
  match Entries.get? documents identity with
  | some document => .ok document
  | none => .error (.text ("no document registered for " ++ quoted identity))

/-- Ask a loader for a document. An unknown placeholder stays what it is; any other
failure, and an empty document, makes the reference unresolvable. -/
def fetch (loader : Loader) (identity : String) : Except Error Json :=
  match loader identity with
  | .ok document =>
    if document.isNull then
      .error (.unresolvableReference identity (.text "loader returned an empty document"))
    else .ok document
  | .error (.error (.unknownSchema placeholder)) => .error (.unknownSchema placeholder)
  | .error cause => .error (.unresolvableReference identity cause)

end Loader

end SchemaBundle
