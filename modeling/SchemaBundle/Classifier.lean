/-
Which references name schema documents.

A reference is embeddable when the path of its url ends in one of the given
suffixes, whatever the case of its letters; query and fragment do not count.
Everything else is an ordinary link.  A template names its schemas by placeholders,
which need not be files: there every relative reference is embeddable as well.
-/
import SchemaBundle.Text.Lowercase
import SchemaBundle.Url.Basic

namespace SchemaBundle

/-- What becomes of a reference to another document. -/
inductive RefKind where
  /-- The document is loaded and embedded. -/
  | embeddable
  /-- The reference stays as it is. -/
  | link
  deriving DecidableEq

/-- A decision for every url. -/
abbrev Classifier := String → RefKind

namespace Classifier

/-- The endings of schema files. -/
def defaultSuffixes : List String :=
  [".json", ".yaml", ".yml"]

/-- Suffixes in the form in which they are compared. -/
def fold (suffixes : List String) : List String :=
  suffixes.map Text.lower

/-- The path of a url, absolute or relative. -/
def pathOf (url : String) : List Char :=
  match Url.parse? url with
  | some parsed => parsed.path
  | none => url.toList.takeWhile fun c => c != '?' && c != '#'

/-- Embeddable are the urls whose path ends in one of the suffixes. -/
def bySuffix (suffixes : List String) : Classifier :=
  let folded := fold suffixes
  fun url =>
    let path := (Text.lower (String.ofList (pathOf url))).toList
    if folded.any fun suffix => Text.endsWith path suffix.toList then .embeddable else .link

/-- The decision for a template: relative references are placeholders. -/
def forTemplate (absolute : Classifier) : Classifier := fun url =>
  if (Url.parse? url).isSome then absolute url else .embeddable

end Classifier

end SchemaBundle
