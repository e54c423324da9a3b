/-
Documents in files.

A loader for a directory answers an identity with the document in the file of that
name, and refuses every file that does not lie in or below the directory.  A file
that does not exist yet is judged by the directory in which it would lie.
-/
import SchemaBundle.Compose
import SchemaBundle.Files.Format
import SchemaBundle.Files.Tree

namespace SchemaBundle

namespace FileSystem

/-- The document in a file. -/
def document (fs : FileSystem) (path : String) : Except Error Json := do
  let format ← FileFormat.ofPath path
  match fs.read path with
  | .ok text => format.read path text
  | .error fault => .error (.io path fault)

/-- Whether a place lies in or below another one. -/
def isWithin (base place : List String) : Bool :=
  place.take base.length == base

/-- The place by which a path is judged: its own, or that of its directory. -/
def judgedPlace? (fs : FileSystem) (path : String) : Option (List String) :=
  match fs.locate path with
  | .ok place => some place
  | .error _ => (Path.parent? path).bind fun parent => (fs.locate parent).toOption

/-- Whether a path, seen from a directory, stays within it. -/
def isSafe (fs : FileSystem) (base path : String) : Bool :=
  match fs.locate base, fs.judgedPlace? (Path.join base path) with
  | .ok base, some place => isWithin base place
  | _, _ => false

/-- What a path of a local file may start with. -/
def localScheme : String :=
  "file://"

/-- The path that an identity names. -/
def pathOf (identity : String) : String :=
  match Text.dropStart? localScheme.toList identity.toList with
  | some rest => String.ofList rest
  | none => identity

/-- The document of an identity below a directory. -/
def loadFrom (fs : FileSystem) (base identity : String) : Except Error Json :=
  let path := pathOf identity
  if fs.isSafe base path then fs.document (Path.join base path)
  else .error (.pathTraversal identity base)

/-- The loader of the files below a directory. -/
def loader (fs : FileSystem) (base : String) : Loader := fun identity =>
  match fs.loadFrom base identity with
  | .ok document => .ok document
  | .error error => .error (.error error)

/-- More steps than the files of a directory can ask for: the length of paths is
limited. -/
def stepLimit : Nat :=
  Nat.pow 2 64

/-- Embed the files below a directory that a root refers to. -/
def embed (fs : FileSystem) (e : Embedder) (base : String) (root : Json) : Report Embedded :=
  e.run (fs.loader base) stepLimit root

/-! ### Schemas in files -/

/-- Schemas by the names of their types. -/
abbrev SchemaTable := List (String × Schema)

/-- The name of the type that a file holds: the title of its document, or else the
name of the file. -/
def typeName (path : String) (document : Json) : Except Error String :=
  match (document.get? "title").bind Json.string? with
  | some "" => ofStem
  | some title => .ok title
  | none => ofStem
where
  /-- The name of the file without its extension. -/
  ofStem : Except Error String :=
    match Path.stem? path with
    | some stem => .ok stem
    | none => .error (.unsupportedFormat path)

/-- Add the schema in a file to a table. The result has the name of its type. -/
def addSchema (fs : FileSystem) (table : SchemaTable) (path : String) :
    Except Error (String × SchemaTable) := do
  let document ← fs.document path
  let name ← typeName path document
  let schema ← Schema.ofDocument document
  return (name, Entries.insert name schema table)

end FileSystem

end SchemaBundle
