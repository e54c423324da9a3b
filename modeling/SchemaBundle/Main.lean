/-
The command line.

What the program does is a function of files, variables and arguments.  What is left
for here is to read the files that it may ask for, and afterwards to write those that
it changed and to print.  It may ask for what its arguments and its configuration name,
and for everything below the directory of the document.
-/
import SchemaBundle.Command.Program

namespace SchemaBundle

namespace CommandLine

/-! ### Reading -/

/-- The place on the disk of a file or directory. -/
def entry (place : List String) : IO.FS.DirEntry :=
  ⟨"/", Text.joinWith "/" place⟩

/-- What stands at a place, the entries of a directory left out. -/
def readOne? (place : List String) : IO (Option FileTree) := do
  let path := (entry place).path
  if ← path.isDir then return some (.directory [])
  else if !(← path.pathExists) then return none
  else
    let content ← (IO.FS.readBinFile path).toBaseIO
    match content with
    | .ok bytes => return some (.file (String.fromUTF8? bytes))
    | .error _ => return some (.file none)

/-- Add what stands at a place, unless it is known. -/
def addOne (tree : FileTree) (place : List String) : IO FileTree := do
  if (tree.at? place).isSome then return tree
  match ← readOne? place with
  | some found => return tree.put place found
  | none => return tree

/-- Add what a path names, and the directories on the way to it. -/
def addPath (fs : FileSystem) (path : String) : IO FileSystem := do
  let mut place := if Path.isAbsolute path then [] else fs.here
  let mut root := fs.root
  for piece in Text.pieces '/' path do
    if piece = ".." then place := place.dropLast
    else if !Path.isIdle piece then
      place := place ++ [piece]
      root ← addOne root place
  return { fs with root }

/-- Add what stands below a place. Links are not followed, so that the walk ends. -/
partial def addBelow (root : FileTree) (place : List String) : IO FileTree := do
  let found ← (entry place).path.readDir.toBaseIO
  match found with
  | .error _ => return root
  | .ok entries =>
    let mut root := root
    for e in entries do
      let place := place ++ [e.fileName]
      root ← addOne root place
      let own ← e.path.symlinkMetadata.toBaseIO
      match own with
      | .ok data => if data.type == .dir then root ← addBelow root place
      | .error _ => pure ()
    return root

/-- Add a directory with everything below it. -/
def addDirectory (fs : FileSystem) (path : String) : IO FileSystem := do
  let fs ← addPath fs path
  match fs.locate path with
  | .ok place => return { fs with root := ← addBelow fs.root place }
  | .error _ => return fs

/-- The files that are known before the arguments are: the way to the working directory. -/
def startFiles (here : String) : IO FileSystem := do
  let fs ← addPath ⟨.directory [], []⟩ here
  return { fs with here := (Text.pieces '/' here).filter (!Path.isIdle ·) }

/-- The files that an invocation may ask for. -/
def addNeeded (fs : FileSystem) (directory : Option String) (lookup : String → Option String)
    (i : Invocation) : IO FileSystem := do
  let configs := i.config.elim (Config.usualPaths directory) fun path => [path]
  let fs ← configs.foldlM addPath fs
  let fs ← (i.saveTo.toList ++ i.golden.toList).foldlM addPath fs
  match i.task with
  | .embed document _ =>
    let fs ← addPath fs document
    addDirectory fs (Path.directory document)
  | .compose base schemas =>
    let fs ← addPath fs base
    let configured :=
      match (Program.configFrom fs directory i.config).1.bind (Program.override lookup) with
      | .ok config => config.mappings
      | .error _ => []
    ((configured ++ schemas).map fun mapping => mapping.2).foldlM addPath fs

/-! ### Writing -/

/-- Write the files of a tree that another tree does not have or has otherwise. -/
def writeChanges (before after : FileTree) : IO Unit := do
  let known := before.files "/"
  for (path, text?) in after.files "/" do
    match text? with
    | some text =>
      if known.lookup path ≠ some (some text) then
        match Path.parent? path with
        | some parent => IO.FS.createDirAll parent
        | none => pure ()
        IO.FS.writeFile path text
    | none => pure ()

/-! ### Surroundings -/

/-- The variables of the environment that the program looks at. -/
def watched : List String :=
  [Arguments.configVariable, Config.mountVariable, Config.formatVariable,
    LogSettings.levelVariable, LogSettings.formatVariable,
    Golden.updateVariable, Golden.plainVariable, "XDG_CONFIG_HOME", "HOME"]

/-- The values of the variables. -/
def readVariables : IO (List (String × String)) :=
  watched.filterMapM fun name => do
    return (← IO.getEnv name).map fun value => (name, value)

/-- The directory for configurations of the user. -/
def configDirectory (lookup : String → Option String) : Option String :=
  ((lookup "XDG_CONFIG_HOME").filter Path.isAbsolute).or
    (((lookup "HOME").filter fun home => !home.isEmpty).map fun home => Path.join home ".config")

end CommandLine

end SchemaBundle

open SchemaBundle CommandLine in
/-- Run the program on the disk. -/
def main (arguments : List String) : IO UInt32 := do
  let started ← IO.monoMsNow
  let values ← readVariables
  let lookup := fun name => values.lookup name
  let directory := configDirectory lookup
  let files ← startFiles (toString (← IO.currentDir))
  let files ←
    match Arguments.parse arguments lookup with
    | .ok i => addNeeded files directory lookup i
    | .error _ => pure files
  let isTerminal ← (← IO.getStdout).isTty
  let elapsed := (← IO.monoMsNow) - started
  let ending := Program.run ⟨files, lookup, directory, isTerminal, elapsed⟩ arguments
  writeChanges files.root ending.files.root
  IO.print ending.output
  IO.eprint ending.errors
  return ending.exitCode.toUInt32
