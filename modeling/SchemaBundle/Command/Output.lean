/-
What commands print.

A document is always printed.  Status lines and tables appear in the format for
people only, so that the other formats hold nothing but the document; most of them
are left out when the user wants quiet, and one kind appears only on request.
-/
import SchemaBundle.Settings.OutputFormat
import SchemaBundle.Text.Ansi

namespace SchemaBundle

/-- How commands print. -/
structure Output where
  /-- The format of documents. -/
  format : OutputFormat
  /-- Whether lines are coloured. -/
  color : Bool
  /-- Whether status lines are left out. -/
  quiet : Bool
  /-- How often more words were asked for. -/
  verbosity : Nat

namespace Output

/-- Whether status lines appear. -/
def isHuman (o : Output) : Bool :=
  o.format = .human

/-- Whether lines that quiet leaves out appear. -/
def isTalking (o : Output) : Bool :=
  o.isHuman && !o.quiet

/-- A text as a line. -/
def line (text : String) : String :=
  text ++ "\n"

/-- What a command is about to do. -/
def info (o : Output) (text : String) : String :=
  if !o.isTalking then ""
  else if o.color then line (Ansi.paint .blue "ℹ" ++ " " ++ text)
  else line ("INFO: " ++ text)

/-- What a command has done. -/
def success (o : Output) (text : String) : String :=
  if o.isTalking then line (Ansi.paintIf o.color .green text) else ""

/-- What the user should know even in quiet. -/
def warning (o : Output) (text : String) : String :=
  if !o.isHuman then ""
  else if o.color then line (Ansi.paint .yellow text)
  else line ("WARNING: " ++ text)

/-- The title of a table. -/
def heading (o : Output) (title : String) : String :=
  if !o.isTalking then ""
  else if o.color then line "" ++ line (Ansi.paint .brightBlue ("═══ " ++ title ++ " ═══"))
  else line "" ++ line ("=== " ++ title ++ " ===")

/-- What only a user who asked for more words wants to know. -/
def debug (o : Output) (text : String) : String :=
  if o.verbosity = 0 || !o.isHuman then ""
  else if o.color then line (Ansi.paint .dimmed "DEBUG:" ++ " " ++ Ansi.paint .dimmed text)
  else line ("DEBUG: " ++ text)

/-- A document, which ends its line. -/
def document (o : Output) (document : Json) : String :=
  let text := o.format.writeDocument document
  if text.toList.getLast? = some '\n' then text else line text

/-! ### Tables -/

/-- The width of every column: that of its widest cell. -/
def widths (headers : List String) (rows : List (List String)) : List Nat :=
  rows.foldl
    (fun widths row =>
      widths.zipIdx.map fun (width, i) =>
        match row[i]? with
        | some cell => max width cell.length
        | none => width)
    (headers.map String.length)

/-- A cell filled up with blanks to the width of its column; a cell outside the table
stays as it is. -/
def padCell (widths : List Nat) (cell : String) (column : Nat) : String :=
  match widths[column]? with
  | some width => cell ++ String.ofList (List.replicate (width - cell.length) ' ')
  | none => cell

/-- Whether a character is dropped at the end of a row. -/
def isSpace (c : Char) : Bool :=
  let code := c.toNat
  (0x09 ≤ code && code ≤ 0x0D) || (0x2000 ≤ code && code ≤ 0x200A) ||
    [0x20, 0x85, 0xA0, 0x1680, 0x2028, 0x2029, 0x202F, 0x205F, 0x3000].contains code

/-- A row of a table. -/
def row (widths : List Nat) (cells : List String) : String :=
  let padded := cells.zipIdx.map fun (cell, column) => padCell widths cell column
  String.ofList (Text.dropEndWhile isSpace (Text.joinWith " │ " padded).toList)

/-- A table under its headers. -/
def table (o : Output) (headers : List String) (rows : List (List String)) : String :=
  if !o.isTalking then ""
  else
    let widths := widths headers rows
    let rule := Text.joinWith "─┼─" (widths.map fun width =>
      String.ofList (List.replicate width '─'))
    line (Ansi.paintIf o.color .bold (row widths headers)) ++ line rule ++
      String.join (rows.map fun cells => line (row widths cells))

end Output

end SchemaBundle
