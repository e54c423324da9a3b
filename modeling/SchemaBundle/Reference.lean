/-
References between documents.

A reference has the form `[url]#[pointer]`.  The text before the first `#` names a
document, and no text there means the document that holds the reference.
-/
import SchemaBundle.Pointer

namespace SchemaBundle

/-- A reference to a place in a document. -/
structure Reference where
  /-- The document, `none` for the one that holds the reference. -/
  url : Option String
  /-- The place in that document. -/
  pointer : Pointer
  deriving DecidableEq

namespace Reference

/-- Why a text is not a reference. -/
inductive Malformed where
  /-- There is no `#`. -/
  | noSeparator
  /-- What follows the `#` is not a pointer. -/
  | badPointer (reason : Pointer.Malformed)
  deriving DecidableEq

/-- The wording of the reason. -/
def Malformed.message : Malformed → String
  | .noSeparator => "missing '#' separator"
  | .badPointer reason => reason.message

/-- The reference to a place in a document, where the empty text names the document
that holds the reference. -/
def ofParts (url : Option String) (pointer : Pointer) : Reference :=
  ⟨url.filter fun u => !u.isEmpty, pointer⟩

/-- The reference to a place in the document that holds it. -/
def internal (pointer : Pointer) : Reference :=
  ⟨none, pointer⟩

/-- The reference that a text stands for. -/
def parse (text : String) : Except Malformed Reference :=
  match Text.splitOnce? '#' text.toList with
  | none => .error .noSeparator
  | some (url, pointer) =>
    match Pointer.parse (String.ofList pointer) with
    | .error reason => .error (.badPointer reason)
    | .ok pointer => .ok (ofParts (some (String.ofList url)) pointer)

/-- The text of a reference. -/
def format (reference : Reference) : String :=
  reference.url.getD "" ++ "#" ++ Pointer.format reference.pointer

/-- Whether the reference stays in the document that holds it. -/
def isInternal (reference : Reference) : Bool :=
  reference.url.isNone

/-- The same document at another place. -/
def withPointer (reference : Reference) (pointer : Pointer) : Reference :=
  { reference with pointer }

end Reference

end SchemaBundle
