/-
Paths of files as texts.

A path is cut at its slashes.  The first piece is the root (empty, for an absolute
path) or the first step; of the later pieces the empty ones and the single dots
lead nowhere.  Taking a path apart cuts its text, so what is left is spelled as it
was given.
-/
import SchemaBundle.Text.Lowercase
import SchemaBundle.Text.Pieces

namespace SchemaBundle

namespace Path

/-- Whether a path starts at the root. -/
def isAbsolute (path : String) : Bool :=
  path.toList.head? = some '/'

/-- A path seen from a directory. An absolute path stays as it is. -/
def join (directory path : String) : String :=
  if isAbsolute path then path
  else if directory.isEmpty || directory.toList.getLast? = some '/' then directory ++ path
  else directory ++ "/" ++ path

/-- Whether a piece leads nowhere when it is not the first. -/
def isIdle (piece : String) : Bool :=
  piece.isEmpty || piece = "."

/-- The pieces without the idle ones at the end, the first always kept. -/
def withoutIdleEnd : List String → List String
  | [] => []
  | first :: rest => first :: (rest.reverse.dropWhile isIdle).reverse

/-- The pieces of a path that matter for its end. -/
def steps (path : String) : List String :=
  withoutIdleEnd (Text.pieces '/' path)

/-- The text of pieces; a lone empty first piece of an absolute path is the root. -/
def ofPieces (absolute : Bool) : List String → String
  | [] => ""
  | [first] => if absolute && first.isEmpty then "/" else first
  | pieces => Text.joinWith "/" pieces

/-- The directory of a path: the root and the empty path have none, and a single
step lies in the empty path. -/
def parent? (path : String) : Option String :=
  match steps path with
  | [] => none
  | [first] => if first.isEmpty then none else some ""
  | pieces => some (ofPieces (isAbsolute path) (withoutIdleEnd pieces.dropLast))

/-- The directory in which a file lies, a dot when the path is a single step. -/
def directory (path : String) : String :=
  match parent? path with
  | none => "."
  | some "" => "."
  | some parent => parent

/-- The last step, unless it leads to a parent or nowhere. -/
def lastName? (path : String) : Option String :=
  (steps path).getLast?.filter fun name => !isIdle name && name != ".."

/-- A name cut at its last dot; a dot that comes first does not cut. -/
def cutExtension (name : String) : String × Option String :=
  let reversed := name.toList.reverse
  let extension := reversed.takeWhile (· ≠ '.')
  let stem := (reversed.dropWhile (· ≠ '.')).drop 1
  if stem.isEmpty then (name, none)
  else (String.ofList stem.reverse, some (String.ofList extension.reverse))

/-- What follows the last dot of the last step. -/
def extension? (path : String) : Option String :=
  (lastName? path).bind fun name => (cutExtension name).2

/-- The last step without its extension. -/
def stem? (path : String) : Option String :=
  (lastName? path).map fun name => (cutExtension name).1

end Path

end SchemaBundle
