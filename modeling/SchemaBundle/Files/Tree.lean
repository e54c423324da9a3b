/-
Files and directories as a value.

A file system is a tree and a place in it from which relative paths start.  A path is
walked piece by piece: every piece needs a directory to start from, two dots lead to
the parent and stay put at the root, and a name has to exist.  There are no links, so
the place where a walk ends is the only one that it can name.
-/
import SchemaBundle.Error
import SchemaBundle.Files.Path

namespace SchemaBundle

/-- A file or a directory. -/
inductive FileTree where
  /-- A file with its text, `none` when the content is not text. -/
  | file (text : Option String)
  /-- A directory with its entries by name. -/
  | directory (entries : List (String × FileTree))
  deriving Inhabited

namespace FileTree

/-- What stands at a place. -/
def at? : List String → FileTree → Option FileTree
  | [], tree => some tree
  | _ :: _, .file _ => none
  | name :: place, .directory entries => (Entries.get? entries name).bind (at? place)

/-- Put something at a place whose directory exists. -/
def put : List String → FileTree → FileTree → FileTree
  | [], _, new => new
  | _ :: _, .file text, _ => .file text
  | name :: place, .directory entries, new =>
    match Entries.get? entries name with
    | some child => .directory (Entries.insert name (put place child new) entries)
    | none =>
      if place.isEmpty then .directory (Entries.insert name new entries) else .directory entries

mutual

/-- The files of a tree with their paths, which start with the given path. -/
def files (path : String) : FileTree → List (String × Option String)
  | .file text => [(path, text)]
  | .directory entries => entryFiles path entries

/-- The files of the entries of a directory. -/
def entryFiles (path : String) : List (String × FileTree) → List (String × Option String)
  | [] => []
  | (name, tree) :: rest => files (Path.join path name) tree ++ entryFiles path rest

end

/-- Whether it is a directory. -/
def isDirectory : FileTree → Bool
  | .directory _ => true
  | .file _ => false

/-- Whether it is a file. -/
def isFile (tree : FileTree) : Bool :=
  !tree.isDirectory

end FileTree

/-- A tree and the place from which relative paths start. -/
structure FileSystem where
  /-- The root directory. -/
  root : FileTree
  /-- The working directory. -/
  here : List String

namespace FileSystem

/-! ### Walking -/

/-- The longest name. -/
def maxName : Nat :=
  255

/-- The longest path. -/
def maxPath : Nat :=
  4095

/-- Where one piece of a path leads. -/
def step (fs : FileSystem) (place : List String) (piece : String) :
    Except FileFault (List String) :=
  match fs.root.at? place with
  | none => .error .notFound
  | some (.file _) => .error .notADirectory
  | some (.directory entries) =>
    if Path.isIdle piece then .ok place
    else if piece = ".." then .ok place.dropLast
    else if maxName < piece.utf8ByteSize then .error .nameTooLong
    else if Entries.contains entries piece then .ok (place ++ [piece])
    else .error .notFound

/-- Where the pieces of a path lead, the path being relative or not. -/
def walk (fs : FileSystem) (absolute : Bool) (pieces : List String) :
    Except FileFault (List String) :=
  pieces.foldlM fs.step (if absolute then [] else fs.here)

/-- Paths that no system call accepts. -/
def checkPath (path : String) : Except FileFault Unit :=
  if path.toList.contains '\x00' then .error .zeroInName
  else if path.isEmpty then .error .notFound
  else if maxPath < path.utf8ByteSize then .error .nameTooLong
  else .ok ()

/-- The place that a path names. -/
def locate (fs : FileSystem) (path : String) : Except FileFault (List String) := do
  checkPath path
  fs.walk (Path.isAbsolute path) (Text.pieces '/' path)

/-- What a path names. -/
def lookup? (fs : FileSystem) (path : String) : Option FileTree :=
  match fs.locate path with
  | .ok place => fs.root.at? place
  | .error _ => none

/-- Whether a path names something. -/
def contains (fs : FileSystem) (path : String) : Bool :=
  (fs.lookup? path).isSome

/-- Whether a path names a directory. -/
def isDirectory (fs : FileSystem) (path : String) : Bool :=
  (fs.lookup? path).any FileTree.isDirectory

/-! ### Reading -/

/-- The text of a file. -/
def read (fs : FileSystem) (path : String) : Except FileFault String := do
  let place ← fs.locate path
  match fs.root.at? place with
  | some (.file (some text)) => .ok text
  | some (.file none) => .error .notText
  | some (.directory _) => .error .isADirectory
  | none => .error .notFound

/-- The names of the files in a directory, in order. -/
def filesIn (fs : FileSystem) (path : String) : Except FileFault (List String) := do
  let place ← fs.locate path
  match fs.root.at? place with
  | some (.directory entries) =>
    .ok (Entries.keys (entries.filter fun entry => entry.2.isFile))
  | some (.file _) => .error .notADirectory
  | none => .error .notFound

/-! ### Writing -/

/-- Where something new would stand. -/
inductive Target where
  /-- A name in the directory at a place, and whether slashes follow it. -/
  | name (place : List String) (name : String) (slashed : Bool)
  /-- A directory, named by dots or as the root. -/
  | directory

/-- Where a path would put something new: all but its last name has to exist. -/
def target (fs : FileSystem) (path : String) : Except FileFault Target := do
  checkPath path
  let pieces := Text.pieces '/' path
  let unslashed := (pieces.reverse.dropWhile String.isEmpty).reverse
  let absolute := Path.isAbsolute path
  match unslashed.getLast? with
  | none => return .directory
  | some name =>
    if name = "." || name = ".." then
      let _ ← fs.walk absolute unslashed
      return .directory
    else
      let place ← fs.walk absolute unslashed.dropLast
      match fs.root.at? place with
      | some (.directory _) =>
        if maxName < name.utf8ByteSize then .error .nameTooLong
        else return .name place name (unslashed.length < pieces.length)
      | _ => .error .notADirectory

/-- Write a text to a file, which need not exist. -/
def write (fs : FileSystem) (path text : String) : Except FileFault FileSystem := do
  match ← fs.target path with
  | .directory => .error .isADirectory
  | .name place name slashed =>
    let place := place ++ [name]
    if slashed || (fs.root.at? place).any FileTree.isDirectory then .error .isADirectory
    else .ok { fs with root := fs.root.put place (.file (some text)) }

/-- Make a directory. -/
def makeDirectory (fs : FileSystem) (path : String) : Except FileFault FileSystem := do
  match ← fs.target path with
  | .directory => .error .alreadyExists
  | .name place name _ =>
    let place := place ++ [name]
    if (fs.root.at? place).isSome then .error .alreadyExists
    else .ok { fs with root := fs.root.put place (.directory []) }

/-- A failure to make a directory does not matter when it is there. -/
def unlessThere (fs : FileSystem) (path : String) :
    Except FileFault FileSystem → Except FileFault FileSystem
  | .ok fs => .ok fs
  | .error fault => if fs.isDirectory path then .ok fs else .error fault

/-- Make a directory and those on the way to it; `fuel` bounds their number. -/
def makeDirectoriesFrom : Nat → String → FileSystem → Except FileFault FileSystem
  | 0, _, _ => .error .notFound
  | fuel + 1, path, fs =>
    if path.isEmpty then .ok fs
    else
      match fs.makeDirectory path, Path.parent? path with
      | .error .notFound, some parent => do
        let fs ← makeDirectoriesFrom fuel parent fs
        fs.unlessThere path (fs.makeDirectory path)
      | .error .notFound, none => .error (.other "failed to create whole tree")
      | result, _ => fs.unlessThere path result

/-- Make a directory and those on the way to it. A parent is shorter than its path, so
the length bounds their number. -/
def makeDirectories (fs : FileSystem) (path : String) : Except FileFault FileSystem :=
  makeDirectoriesFrom (path.length + 1) path fs

end FileSystem

end SchemaBundle
