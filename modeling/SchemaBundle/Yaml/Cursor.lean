/-
A place in a YAML text.

A cursor is the text that is left, with the number of characters before it, its line
and its column.  Line ends are the line feed, the carriage return alone or with a
line feed, and three characters beyond ASCII; the first three of these read as a
line feed.
-/
import SchemaBundle.Text.Pieces

namespace SchemaBundle

namespace Yaml

/-- A character that ends a line. -/
def isBreak (c : Char) : Bool :=
  c = '\n' || c = '\r' || c = '\u0085' || c = '\u2028' || c = '\u2029'

/-- A blank or a tab. -/
def isBlank (c : Char) : Bool :=
  c = ' ' || c = '\t'

/-- A character of names: an ASCII letter or digit, `_` or `-`. -/
def isNameChar (c : Char) : Bool :=
  c.isAlphanum || c = '_' || c = '-'

/-- Characters that a text may hold. -/
def isAllowed (c : Char) : Bool :=
  let code := c.toNat
  code == 0x09 || code == 0x0A || code == 0x0D || (0x20 ≤ code && code ≤ 0x7E) || code == 0x85 ||
    (0xA0 ≤ code && code ≤ 0xFFFD) || 0x10000 ≤ code

/-- Whether a text starts with a blank or a line end, or is at its end. -/
def startsBlank : List Char → Bool
  | [] => true
  | c :: _ => isBlank c || isBreak c

/-- A place in a text. -/
structure Cursor where
  /-- The text that is left. -/
  rest : List Char
  /-- How many characters came before. -/
  index : Nat
  /-- The number of the line, from 0 on. -/
  line : Nat
  /-- The number of the column, from 0 on. -/
  column : Nat

namespace Cursor

/-- The beginning of a text. -/
def start (text : List Char) : Cursor :=
  ⟨text, 0, 0, 0⟩

/-- Go on to `rest`, which is further right on the same line. -/
def jump (c : Cursor) (rest : List Char) : Cursor :=
  let passed := c.rest.length - rest.length
  ⟨rest, c.index + passed, c.line, c.column + passed⟩

/-- Go one character to the right. -/
def skip (c : Cursor) : Cursor :=
  match c.rest with
  | [] => c
  | _ :: rest => ⟨rest, c.index + 1, c.line, c.column + 1⟩

/-- Go on while a test holds; the characters passed are on one line. -/
def skipWhile (test : Char → Bool) (c : Cursor) : Cursor :=
  let passed := (c.rest.takeWhile test).length
  ⟨c.rest.drop passed, c.index + passed, c.line, c.column + passed⟩

/-- Go over the end of the line, if the cursor stands there. -/
def skipLine (c : Cursor) : Cursor :=
  match c.rest with
  | '\r' :: '\n' :: rest => ⟨rest, c.index + 2, c.line + 1, 0⟩
  | b :: rest => if isBreak b then ⟨rest, c.index + 1, c.line + 1, 0⟩ else c
  | [] => c

/-- What the end of the line reads as, if the cursor stands there. -/
def lineEnd (c : Cursor) : List Char :=
  match c.rest with
  | b :: _ => if isBreak b then (if b = '\u2028' || b = '\u2029' then [b] else ['\n']) else []
  | [] => []

/-- Whether the cursor stands at the end of a line or of the text. -/
def atLineEnd (c : Cursor) : Bool :=
  match c.rest with
  | [] => true
  | b :: _ => isBreak b

/-- Whether the next character is the given one. -/
def sees (c : Cursor) (x : Char) : Bool :=
  c.rest.head? = some x

/-- Whether the cursor stands at `---` or `...` at the beginning of a line. -/
def atDocumentMark (c : Cursor) : Bool :=
  c.column == 0 &&
    match c.rest with
    | '-' :: '-' :: '-' :: rest => startsBlank rest
    | '.' :: '.' :: '.' :: rest => startsBlank rest
    | _ => false

end Cursor

end Yaml

end SchemaBundle
