/-
YAML text of a JSON value.

Blocks are indented by two blanks; a list under a key is not indented further, and
empty containers stand on the line in brackets.  A string is written plain when it
then reads as the same string, in single quotes when it would read as something else
or starts or ends in a way that plain text cannot, in double quotes when it has
characters that need an escape, and as a block when it has several lines.  A key
that is long or has several lines stands behind a question mark.
-/
import SchemaBundle.Yaml.Value

namespace SchemaBundle

namespace Yaml

/-- In YAML text a positive exponent has no sign. -/
def exponentStyle : Double.ExponentStyle :=
  ⟨false⟩

/-! ### Choosing a style -/

/-- How a string is written. -/
inductive Style where
  | plain
  | single
  | double
  | block
  deriving DecidableEq

/-- Characters that need no escape. -/
def isPrintable (c : Char) : Bool :=
  let code := c.toNat
  code == 0x0A || (0x20 ≤ code && code ≤ 0x7E) || (0xA0 ≤ code && code ≤ 0xD7FF) ||
    (0xE000 ≤ code && code ≤ 0xFFFD && code != 0xFEFF) || 0x10000 ≤ code

/-- What a string holds that decides about its style. -/
structure Traits where
  /-- An indicator would be read where a plain string starts or goes on. -/
  indicators : Bool
  /-- There is a line end. -/
  multiline : Bool
  /-- There is a character that needs an escape. -/
  special : Bool
  /-- A blank or a line end is first or last. -/
  edges : Bool
  /-- A blank is last. -/
  trailingBlank : Bool
  /-- A blank follows a line end. -/
  blankAfterBreak : Bool
  /-- A line end follows a blank. -/
  breakAfterBlank : Bool

/-- Whether a character counts as white where indicators are looked for. -/
def isWhite (c : Char) : Bool :=
  isBlank c || isBreak c || c.toNat == 0

/-- Whether a text starts white or is at its end. -/
def startsWhite (cs : List Char) : Bool :=
  cs.head?.all isWhite

/-- Whether a character at the beginning of a string reads as an indicator. -/
def indicatesAtStart (c : Char) (rest : List Char) : Bool :=
  "#,[]\x7b\x7d&*!|>'\"%@`".toList.contains c ||
    ((c = '?' || c = ':' || c = '-') && startsWhite rest)

/-- Whether a string holds an indicator after its beginning: a colon in front of
white or a number sign behind it. -/
def indicatesLater (previous : Char) : List Char → Bool
  | [] => false
  | c :: rest =>
    (c = ':' && startsWhite rest) || (c = '#' && isWhite previous) || indicatesLater c rest

/-- Whether two neighbours satisfy the two tests. -/
def hasNeighbours (first second : Char → Bool) : List Char → Bool
  | a :: b :: rest => (first a && second b) || hasNeighbours first second (b :: rest)
  | _ => false

/-- The traits of a string. -/
def traits (cs : List Char) : Traits :=
  let isSpace (c : Char) : Bool := c = ' '
  let isEdge (c : Char) : Bool := isSpace c || isBreak c
  let mark := (Text.dropStart? "---".toList cs).isSome || (Text.dropStart? "...".toList cs).isSome
  { indicators := mark ||
      match cs with
      | [] => false
      | c :: rest => indicatesAtStart c rest || indicatesLater c rest
    multiline := cs.any isBreak
    special := cs.any fun c => !isPrintable c
    edges := cs.head?.any isEdge || cs.getLast?.any isEdge
    trailingBlank := cs.getLast?.any isSpace
    blankAfterBreak := hasNeighbours isBreak isSpace cs
    breakAfterBlank := hasNeighbours isSpace isBreak cs }

/-- Whether a plain string would be read as a string. -/
def readsAsText (s : String) : Bool :=
  match readPlain s with
  | .text => !isZeroPadded s.toList
  | .tooLarge => true
  | _ => false

/-- The style of a string, which may stand in the place of a key on its line. -/
def styleOf (asKey : Bool) (s : String) : Style :=
  let cs := s.toList
  let t := traits cs
  let wanted : Style :=
    if cs.contains '\n' then .block else if readsAsText s then .plain else .single
  let quoted : Style :=
    if t.blankAfterBreak || t.breakAfterBlank || t.special then .double else .single
  if asKey && t.multiline then .double
  else
    match wanted with
    | .block =>
      if cs.isEmpty || t.trailingBlank || t.breakAfterBlank || t.special || asKey then .double
      else .block
    | .plain =>
      if t.edges || t.blankAfterBreak || t.breakAfterBlank || t.special || t.multiline ||
        t.indicators then quoted
      else .plain
    | _ => quoted

/-! ### Writing -/

/-- The text written so far. -/
structure Writer where
  /-- The text, reversed. -/
  text : List Char
  /-- The column of the next character. -/
  column : Nat
  /-- Whether a blank or a line end was written last. -/
  white : Bool
  /-- Whether nothing but indentation and indicators is on the line. -/
  fresh : Bool

namespace Writer

/-- Nothing written. -/
def start : Writer :=
  ⟨[], 0, true, true⟩

/-- Write a character that ends no line. -/
def put (w : Writer) (c : Char) : Writer :=
  { w with text := c :: w.text, column := w.column + 1 }

/-- Write a character that ends a line. -/
def putBreak (w : Writer) (c : Char) : Writer :=
  { w with text := c :: w.text, column := 0 }

/-- Write characters that end no line. -/
def puts (w : Writer) (cs : List Char) : Writer :=
  cs.foldl put w

/-- Go to the indentation: on a new line, unless the line holds nothing but
indentation and indicators and is not too far right. -/
def indentTo (w : Writer) (indent : Nat) : Writer :=
  let w :=
    if !w.fresh || indent < w.column || (w.column = indent && !w.white) then w.putBreak '\n' else w
  { w.puts (List.replicate (indent - w.column) ' ') with white := true, fresh := true }

/-- Write an indicator behind a blank, if it needs one. -/
def indicator (w : Writer) (needsBlank keepsFresh : Bool) (cs : List Char) : Writer :=
  let w := if needsBlank && !w.white then w.put ' ' else w
  { w.puts cs with white := false, fresh := w.fresh && keepsFresh }

/-- Write a string over several lines, the continuation lines indented. The first
line end of a row is doubled when it is to be read back as one. -/
def foldedChars (indent : Nat) (double : Char → List Char) : Bool → Writer → List Char → Writer
  | inBreaks, w, [] => if inBreaks then w.indentTo indent else w
  | inBreaks, w, c :: rest =>
    if isBreak c then
      let w := if !inBreaks && c = '\n' then w.putBreak '\n' else w
      foldedChars indent double true { w.putBreak c with fresh := true } rest
    else if c = ' ' then foldedChars indent double inBreaks (w.put c) rest
    else
      let w := if inBreaks then w.indentTo indent else w
      foldedChars indent double false { w.puts (double c) with fresh := false } rest

/-- The letter of a short escape. -/
def shortEscape? (c : Char) : Option Char :=
  match c.toNat with
  | 0x00 => some '0'
  | 0x07 => some 'a'
  | 0x08 => some 'b'
  | 0x09 => some 't'
  | 0x0A => some 'n'
  | 0x0B => some 'v'
  | 0x0C => some 'f'
  | 0x0D => some 'r'
  | 0x1B => some 'e'
  | 0x22 => some '"'
  | 0x5C => some '\\'
  | 0x85 => some 'N'
  | 0xA0 => some '_'
  | 0x2028 => some 'L'
  | 0x2029 => some 'P'
  | _ => none

/-- The digits of a code, padded with zeros. -/
def codeDigits (width code : Nat) : List Char :=
  let digits := (Nat.toDigits 16 code).map Char.toUpper
  List.replicate (width - digits.length) '0' ++ digits

/-- A character in double quotes. -/
def escapeChar (c : Char) : List Char :=
  if isPrintable c && !isBreak c && c ≠ '"' && c ≠ '\\' then [c]
  else
    match shortEscape? c with
    | some letter => ['\\', letter]
    | none =>
      let code := c.toNat
      if code ≤ 0xFF then '\\' :: 'x' :: codeDigits 2 code
      else if code ≤ 0xFFFF then '\\' :: 'u' :: codeDigits 4 code
      else '\\' :: 'U' :: codeDigits 8 code

/-- What a block says about its first line and its line ends at the end. -/
def blockHeader (cs : List Char) : List Char :=
  let indentation := if cs.head?.any fun c => c = ' ' || isBreak c then ['2'] else []
  let chomping :=
    match cs.reverse with
    | [] => ['-']
    | [c] => if isBreak c then ['+'] else ['-']
    | c :: d :: _ => if !isBreak c then ['-'] else if isBreak d then ['+'] else []
  indentation ++ chomping

/-- Write the lines of a block. -/
def blockChars (indent : Nat) : Bool → Writer → List Char → Writer
  | _, w, [] => w
  | atBreak, w, c :: rest =>
    if isBreak c then blockChars indent true { w.putBreak c with fresh := true } rest
    else
      let w := if atBreak then w.indentTo indent else w
      blockChars indent false { w.put c with fresh := false } rest

/-- Write a string whose continuation lines have the given indentation. -/
def string (w : Writer) (indent : Nat) (asKey : Bool) (s : String) : Writer :=
  let cs := s.toList
  match styleOf asKey s with
  | .plain =>
    let w := if !w.white && !cs.isEmpty then w.put ' ' else w
    { w.puts cs with white := false, fresh := false }
  | .single =>
    let w := w.indicator true false ['\'']
    let w := foldedChars indent (fun c => if c = '\'' then ['\'', '\''] else [c]) false w cs
    w.indicator false false ['\'']
  | .double =>
    let w := w.indicator true false ['"']
    (w.puts (cs.flatMap escapeChar)).indicator false false ['"']
  | .block =>
    let w := (w.indicator true false ['|']).indicator false false (blockHeader cs)
    blockChars indent true { w.putBreak '\n' with white := true, fresh := true } cs

/-- Write a number, a truth value or null. -/
def word (w : Writer) (cs : List Char) : Writer :=
  let w := if !w.white then w.put ' ' else w
  { w.puts cs with white := false, fresh := false }

/-- Write an empty container. -/
def brackets (w : Writer) (first last : Char) : Writer :=
  (w.indicator true false [first]).indicator false false [last]

/-- Where a value stands, which decides how its block is indented. -/
inductive Place where
  /-- The whole document. -/
  | root
  /-- An entry of a list whose hyphens have the given indentation. -/
  | item (indent : Nat)
  /-- The value of a key that has the given indentation. -/
  | member (indent : Nat)

/-- The indentation of a block at a place, and of the text lines there. -/
def Place.deeper : Place → Nat
  | .root => 0
  | .item indent => indent + 2
  | .member indent => indent + 2

/-- The indentation of the continuation lines of a string. -/
def Place.textIndent : Place → Nat
  | .root => 2
  | .item indent => indent + 2
  | .member indent => indent + 2

/-- Whether a key stands on the line of its value: it has one line and at most 128
bytes. -/
def isShortKey (key : String) : Bool :=
  !key.toList.any isBreak && key.utf8ByteSize ≤ 128

mutual

/-- Write a value. -/
def value (w : Writer) (place : Place) : Json → Writer
  | .null => w.word "null".toList
  | .bool b => w.word (if b then "true" else "false").toList
  | .number (.int n) => w.word (Json.intChars n)
  | .number (.double x) => w.word (x.text exponentStyle)
  | .string s => w.string place.textIndent false s
  | .array [] => w.brackets '[' ']'
  | .array items =>
    let indent :=
      match place with
      | .member indent => if w.fresh then indent + 2 else indent
      | _ => place.deeper
    items' w indent items
  | .object [] => w.brackets '\x7b' '\x7d'
  | .object members => members' w place.deeper members

/-- Write the entries of a list. -/
def items' (w : Writer) (indent : Nat) : List Json → Writer
  | [] => w
  | item :: rest =>
    let w := (w.indentTo indent).indicator true true ['-']
    items' (value w (.item indent) item) indent rest

/-- Write the members of an object. -/
def members' (w : Writer) (indent : Nat) : List (String × Json) → Writer
  | [] => w
  | (key, v) :: rest =>
    let w := w.indentTo indent
    let w :=
      if isShortKey key then
        ((w.string (indent + 2) true key).indicator false false [':'])
      else
        let w := (w.indicator true true ['?']).string (indent + 2) false key
        (w.indentTo indent).indicator true true [':']
    members' (value w (.member indent) v) indent rest

end

end Writer

/-- The YAML text of a value, which ends with its line. -/
def write (value : Json) : String :=
  let w := (Writer.start.value .root value).indentTo 0
  String.ofList w.text.reverse

end Yaml

end SchemaBundle
