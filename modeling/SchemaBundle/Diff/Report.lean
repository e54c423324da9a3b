/-
Telling the difference of two texts.

A report shows changed lines with a few unchanged ones around them.  Deletions stand
before insertions, and a row of unchanged lines that is too long is shown at its ends
only.  Two values are compared by their canonical texts; where they differ, the
places of the differences are told besides.
-/
import SchemaBundle.Diff.Paths
import SchemaBundle.Diff.Script
import SchemaBundle.Json.Writer
import SchemaBundle.Text.Ansi

namespace SchemaBundle

namespace Diff

/-- How a difference is told. -/
structure Options where
  /-- Whether lines are coloured. -/
  colored : Bool
  /-- How many unchanged lines are shown around changes. -/
  contextLines : Nat
  /-- How many lines are shown at most; 0 means all. -/
  maxLines : Nat
  deriving DecidableEq

/-- The usual options. -/
def Options.standard : Options :=
  ⟨true, 3, 100⟩

/-! ### Blocks -/

/-- A part of a script with its lines. -/
inductive Block where
  /-- Lines that both texts have. -/
  | same (lines : List String)
  /-- Lines that were removed and lines that stand in their place. -/
  | change (removed added : List String)

/-- Some lines of a sequence. -/
def slice (lines : Array String) (start count : Nat) : List String :=
  (lines.extract start (start + count)).toList

/-- The blocks of a script: changes next to each other are one. -/
def blocks (t : Texts) : List Run → List Block
  | [] => []
  | .same old _ count :: rest =>
    let lines := slice t.old old count
    match blocks t rest with
    | .same more :: others => .same (lines ++ more) :: others
    | others => .same lines :: others
  | .deleted old count :: rest =>
    let lines := slice t.old old count
    match blocks t rest with
    | .change removed added :: others => .change (lines ++ removed) added :: others
    | others => .change lines [] :: others
  | .inserted new count :: rest =>
    let lines := slice t.new new count
    match blocks t rest with
    | .change removed added :: others => .change removed (lines ++ added) :: others
    | others => .change [] lines :: others

/-! ### Lines -/

/-- What happened to a line. -/
inductive Mark where
  | kept
  | removed
  | added
  deriving DecidableEq

/-- Lines with one mark. -/
def marked (mark : Mark) (lines : List String) : List (Mark × String) :=
  lines.map fun line => (mark, line)

/-- The last items of a list. -/
def lastOf {α : Type} (n : Nat) (xs : List α) : List α :=
  xs.drop (xs.length - n)

/-- The lines that are shown of blocks behind the first change. -/
def shownAfter (context : Nat) : List Block → List (Mark × String)
  | [] => []
  | [.same lines] => marked .kept (lines.take context)
  | .same lines :: rest =>
    let shown :=
      if 2 * context < lines.length then lines.take context ++ lastOf context lines else lines
    marked .kept shown ++ shownAfter context rest
  | .change removed added :: rest =>
    marked .removed removed ++ marked .added added ++ shownAfter context rest

/-- The lines that are shown. -/
def shown (context : Nat) : List Block → List (Mark × String)
  | .same lines :: rest => marked .kept (lastOf context lines) ++ shownAfter context rest
  | rest => shownAfter context rest

/-- Whether a line has an end. -/
def hasEnd (line : String) : Bool :=
  (line.toList.getLast?).any fun c => c = '\n' || c = '\r'

/-- A line with its mark. A line without end gets one, and an empty line after it. -/
def lineText (colored : Bool) (mark : Mark) (line : String) : String :=
  let ended := if hasEnd line then line else line ++ "\n"
  let text :=
    match mark with
    | .kept => " " ++ ended
    | .removed => Ansi.paintIf colored .red "-" ++ Ansi.paintIf colored .red ended
    | .added => Ansi.paintIf colored .green "+" ++ Ansi.paintIf colored .green ended
  if hasEnd line then text else text ++ "\n"

/-- What stands in front of all lines. -/
def header : String :=
  "--- golden\n+++ actual\n"

/-- What stands in place of lines that are too many. -/
def truncation : String :=
  "... (diff truncated) ...\n"

/-- The text of the lines that are shown. -/
def render (options : Options) (lines : List (Mark × String)) : String :=
  let limited := if options.maxLines = 0 then lines else lines.take options.maxLines
  let text := String.join (limited.map fun (mark, line) => lineText options.colored mark line)
  Ansi.paintIf options.colored .bold header ++ text ++
    if limited.length < lines.length then truncation else ""

/-! ### Reports -/

/-- The result of a comparison. -/
structure Report where
  /-- Whether there is no difference. -/
  isMatch : Bool
  /-- The text that tells the difference. -/
  text : String
  /-- How many lines were added. -/
  added : Nat
  /-- How many lines were removed. -/
  removed : Nat
  /-- The places where the values differ. -/
  places : List Difference

/-- The lines of a text, with their ends. -/
def linesOf (text : String) : Array String :=
  ((Text.lines text.toList).map String.ofList).toArray

/-- How many lines a script deletes. -/
def deletedCount (script : List Run) : Nat :=
  script.foldr
    (fun
      | .deleted _ count, total => count + total
      | _, total => total) 0

/-- How many lines a script inserts. -/
def insertedCount (script : List Run) : Nat :=
  script.foldr
    (fun
      | .inserted _ count, total => count + total
      | _, total => total) 0

/-- Compare two texts. -/
def compareTexts (options : Options) (expected actual : String) : Report :=
  if expected = actual then ⟨true, "", 0, 0, []⟩
  else
    let t : Texts := ⟨linesOf expected, linesOf actual⟩
    let script := t.script
    { isMatch := false
      text := render options (shown options.contextLines (blocks t script))
      added := insertedCount script
      removed := deletedCount script
      places := [] }

/-- Compare two values by their canonical texts. -/
def compareValues (options : Options) (expected actual : Json) : Report :=
  let report := compareTexts options expected.canonical actual.canonical
  if report.isMatch then report else { report with places := differences expected actual }

end Diff

end SchemaBundle
