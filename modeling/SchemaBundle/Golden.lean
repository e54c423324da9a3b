/-
Golden files.

A golden file keeps the text that an output should have.  An output that differs from
its golden file is an error that tells the difference; in update mode the file is
written instead, but only if it differs or does not exist.
-/
import SchemaBundle.Diff.Report
import SchemaBundle.Files.Tree
import SchemaBundle.Text.Escaped

namespace SchemaBundle

namespace Golden

/-- How golden files are used. -/
structure Mode where
  /-- Whether files are written instead of compared. -/
  update : Bool
  /-- How differences are told. -/
  options : Diff.Options
  deriving DecidableEq

/-- What a comparison did. -/
inductive Verdict where
  /-- The output is what the file holds. -/
  | matched
  /-- The file held something else and was written. -/
  | updated
  /-- The file did not exist and was written. -/
  | created
  deriving DecidableEq

/-- What can go wrong with a golden file. -/
inductive Fault where
  /-- It could not be read or written. -/
  | io (fault : FileFault)
  /-- It holds something else. -/
  | mismatch (path difference : String)
  /-- It does not exist. -/
  | missing (path : String)
  deriving DecidableEq

/-- The wording of a fault. -/
def Fault.message : Fault → String
  | .io fault => "IO error: " ++ fault.message
  | .mismatch path difference =>
    "Golden file " ++ Text.escaped path ++ " is out of date:\n" ++ difference
  | .missing path =>
    "Golden file " ++ Text.escaped path ++
      " does not exist (run with UPDATE_GOLDEN=1 to create it)"

/-! ### Mode -/

/-- Compare, and tell differences as usual. -/
def Mode.standard : Mode :=
  ⟨false, .standard⟩

/-- The variable that asks for update mode. -/
def updateVariable : String :=
  "UPDATE_GOLDEN"

/-- The variable that asks for differences without colours. -/
def plainVariable : String :=
  "GOLDEN_NO_COLOR"

/-- Whether the value of a variable switches something on. -/
def isOn (value : String) : Bool :=
  value = "1" || Text.asciiLower value = "true"

/-- The mode that variables of the environment ask for. -/
def Mode.ofEnvironment (lookup : String → Option String) : Mode :=
  let standard := Mode.standard
  { update := ((lookup updateVariable).map isOn).getD standard.update
    options := { standard.options with
      colored := ((lookup plainVariable).map fun v => !isOn v).getD standard.options.colored } }

/-! ### Files -/

/-- The text of a golden file, `none` when it does not exist. -/
def load (fs : FileSystem) (path : String) : Except Fault (Option String) :=
  if !fs.contains path then .ok none
  else
    match fs.read path with
    | .ok text => .ok (some text)
    | .error fault => .error (.io fault)

/-- Write a golden file, making the directories on the way to it. -/
def save (fs : FileSystem) (path text : String) : Except Fault FileSystem :=
  let made :=
    match Path.parent? path with
    | some parent => fs.makeDirectories parent
    | none => .ok fs
  match made.bind fun fs => fs.write path text with
  | .ok fs => .ok fs
  | .error fault => .error (.io fault)

/-- Compare a text with a golden file, or write it. -/
def verifyText (mode : Mode) (fs : FileSystem) (path actual : String) :
    Except Fault (Verdict × FileSystem) := do
  match ← load fs path with
  | none =>
    if mode.update then return (.created, ← save fs path actual) else .error (.missing path)
  | some expected =>
    let report := Diff.compareTexts mode.options expected actual
    if report.isMatch then return (.matched, fs)
    else if mode.update then return (.updated, ← save fs path actual)
    else .error (.mismatch path report.text)

/-- Compare the canonical text of a value with a golden file, or write it. -/
def verify (mode : Mode) (fs : FileSystem) (path : String) (actual : Json) :
    Except Fault (Verdict × FileSystem) :=
  verifyText mode fs path actual.canonical

/-! ### Directories -/

/-- The extension of golden files in a directory. -/
def extension : String :=
  ".json"

/-- The path of a golden file in a directory; the extension may be left out. -/
def fileIn (directory name : String) : String :=
  if Text.endsWith name.toList extension.toList then Path.join directory name
  else Path.join directory (name ++ extension)

/-- The names of the golden files in a directory, in order. -/
def list (fs : FileSystem) (directory : String) : Except Fault (List String) :=
  if !fs.contains directory then .ok []
  else
    match fs.filesIn directory with
    | .ok names =>
      let golden := names.filter fun name => Path.extension? name = some "json"
      .ok ((golden.filterMap Path.stem?).mergeSort (· ≤ ·))
    | .error fault => .error (.io fault)

end Golden

end SchemaBundle
