/-
The two commands.

A command reads its inputs, computes a document, and then checks, saves or prints it.
A golden file is compared before anything else is written, so that a command that
fails there has left every file as it was.  What was printed before a failure stays
printed.
-/
import SchemaBundle.Command.Arguments
import SchemaBundle.Command.Failure
import SchemaBundle.Command.Output
import SchemaBundle.Files.Loader

namespace SchemaBundle

/-- What commands change: files, and the text printed so far. -/
structure Session where
  /-- The files. -/
  files : FileSystem
  /-- What was printed. -/
  printed : String

/-- A step of a command. A failure keeps what was changed before it. -/
abbrev Command := ExceptT Failure (StateM Session)

/-- What commands depend on besides their arguments. -/
structure Setup where
  /-- The configuration. -/
  config : Config
  /-- How to print. -/
  output : Output
  /-- How golden files are used. -/
  golden : Golden.Mode
  /-- How many milliseconds the command takes. -/
  elapsed : Nat

/-- Where the result of a command goes. -/
structure Destination where
  /-- Where to save it. -/
  saveTo : Option String
  /-- The golden file to compare it with. -/
  golden : Option String

namespace Command

/-- Print a text. -/
def print (text : String) : Command Unit :=
  modify fun s => { s with printed := s.printed ++ text }

/-- The files. -/
def files : Command FileSystem := do
  return (← get).files

/-- Change the files. -/
def setFiles (files : FileSystem) : Command Unit :=
  modify fun s => { s with files }

/-- Go on with a result, or fail with an error in a document. -/
def ofDocument {α : Type} (result : Except Error α) : Command α :=
  match result with
  | .ok value => return value
  | .error error => throw (.document error)

/-- Go on with a result, or fail because of a file. -/
def ofFile {α : Type} (result : Except FileFault α) : Command α :=
  match result with
  | .ok value => return value
  | .error fault => throw (.io fault)

/-- Go on with the result of a run. -/
def ofOutcome {α : Type} (outcome : Outcome α) : Command α :=
  match outcome with
  | .done value => return value
  | .failed error => throw (.document error)
  | .unfinished => throw (.other "the documents lead to too many others")

/-- Fail unless a file exists. -/
def needFile (path : String) : Command Unit := do
  if !(← files).contains path then throw (.fileNotFound path)

/-- The document in a file. -/
def readDocument (path : String) : Command Json := do
  needFile path
  ofDocument ((← files).document path)

/-! ### Results -/

/-- The text of a document in a file: canonical JSON, or YAML with sorted members. -/
def fileText (format : FileFormat) (document : Json) : String :=
  match format with
  | .json => document.canonical
  | .yaml =>
    let text := format.write document.sortKeys
    if text.toList.getLast? = some '\n' then text else text ++ "\n"

/-- Save a document in the format that the path names. -/
def saveDocument (document : Json) (path : String) : Command Unit := do
  let format ← ofDocument (FileFormat.ofPath path)
  match Path.parent? path with
  | some parent => setFiles (← ofFile ((← files).makeDirectories parent))
  | none => pure ()
  setFiles (← ofFile ((← files).write path (fileText format document)))

/-- What is told about a golden file. -/
def verdictText (verdict : Golden.Verdict) (path : String) : String :=
  match verdict with
  | .matched => "✓ Output matches " ++ path
  | .updated => "✓ Updated golden file " ++ path
  | .created => "✓ Created golden file " ++ path

/-- Compare a document with a golden file. Colours follow the output. -/
def checkGolden (setup : Setup) (document : Json) (path : String) : Command Unit := do
  let options := setup.golden.options
  let mode : Golden.Mode :=
    { setup.golden with
      options := { options with colored := setup.output.color && options.colored } }
  match Golden.verify mode (← files) path document with
  | .error fault => throw (.golden fault)
  | .ok (verdict, files) =>
    setFiles files
    print (setup.output.success (verdictText verdict path))

/-- Check, save or print a document. -/
def deliver (setup : Setup) (document : Json) (destination : Destination) : Command Unit := do
  match destination.golden with
  | some path => checkGolden setup document path
  | none => pure ()
  match destination.saveTo with
  | some path =>
    saveDocument document path
    print (setup.output.success ("✓ Saved to " ++ path))
  | none => print (setup.output.document document)

/-! ### Embedding -/

/-- Embed what a document refers to. -/
def embed (setup : Setup) (document : String) (mount : Option String)
    (destination : Destination) : Command Unit := do
  let output := setup.output
  print (output.info ("Embedding " ++ document))
  let root ← readDocument document
  let settings := { setup.config.embedder with
    mountPath := mount.getD setup.config.embedder.mountPath }
  let embedder ← ofDocument (Embedder.ofSettings settings)
  let embedded ← ofOutcome ((← files).embed embedder (Path.directory document) root).outcome
  deliver setup embedded.document destination
  if embedded.names.isEmpty then print (output.warning "No external schema references found")
  else
    print (output.heading "Embedded documents")
    print (output.table ["Identity", "Definition"]
      (embedded.names.map fun (identity, name) => [identity, name]))
  print (output.debug (toString embedded.definitions.size ++ " definitions under " ++
    settings.mountPath ++ " in " ++ toString setup.elapsed ++ "ms"))

/-! ### Composing -/

/-- The files of placeholders: those of the configuration, overridden by arguments,
which must not name a placeholder twice. -/
def mappings (config : Config) (flags : List (String × String)) :
    Except Failure (List (String × String)) :=
  let rec merge (seen : List String) (merged : List (String × String)) :
      List (String × String) → Except Failure (List (String × String))
    | [] => .ok merged
    | (placeholder, file) :: rest =>
      if seen.contains placeholder then .error (.arguments (.mappedTwice placeholder))
      else merge (placeholder :: seen) (Entries.insert placeholder file merged) rest
  merge [] config.mappings flags

/-- Add the schemas in the files of placeholders to a table. The result also has the
type of every placeholder. -/
def addSchemas : FileSystem.SchemaTable → List (String × String) →
    Command (List (String × String) × FileSystem.SchemaTable)
  | table, [] => return ([], table)
  | table, (placeholder, file) :: rest => do
    needFile file
    let (type, table) ← ofDocument ((← files).addSchema table file)
    let (types, table) ← addSchemas table rest
    return ((placeholder, type) :: types, table)

/-- Go on with a result or fail. -/
def ofResult {α : Type} (result : Except Failure α) : Command α :=
  match result with
  | .ok value => return value
  | .error failure => throw failure

/-- Read a template and the schemas for its placeholders. -/
def composition (config : Config) (base : String) (flags : List (String × String)) :
    Command (Composition × FileSystem.SchemaTable) := do
  let template ← readDocument base
  let mappings ← ofResult (mappings config flags)
  let (types, table) ← addSchemas [] mappings
  let composition := { Composition.empty with
    base := some template
    absolute := Classifier.bySuffix config.embedder.suffixes
    maxSuffix := config.embedder.maxSuffix }
  return (composition.withSchemas types, table)

/-- Fill the placeholders of a template. -/
def fill (config : Config) (base : String) (flags : List (String × String)) : Command Json := do
  let (composition, table) ← composition config base flags
  ofOutcome (composition.build (Generator.ofSchemas table)).outcome

/-- Fill the placeholders of a template, and check, save or print the result. -/
def compose (setup : Setup) (base : String) (flags : List (String × String))
    (destination : Destination) : Command Unit := do
  let output := setup.output
  print (output.info ("Composing " ++ base))
  let composed ← fill setup.config base flags
  let names := Composition.existingComponents composed
  deliver setup composed destination
  if !names.isEmpty then
    print (output.heading "Component schemas")
    print (output.table ["Schema"] (names.map fun name => [name]))
  print (output.debug ("composed in " ++ toString setup.elapsed ++ "ms"))

/-- Do what an invocation asks for. -/
def perform (setup : Setup) (i : Invocation) : Command Unit :=
  let destination : Destination := ⟨i.saveTo, i.golden⟩
  match i.task with
  | .embed document mount => embed setup document mount destination
  | .compose base schemas => compose setup base schemas destination

end Command

end SchemaBundle
