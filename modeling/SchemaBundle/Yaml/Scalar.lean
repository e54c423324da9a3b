/-
Scalars of a YAML text.

A scalar is written plain, in quotes, or as a block.  Outside blocks, blanks around
a line end do not count, a single line end reads as a blank, and of several the
first does not count.  In a block the lines stand below an indentation, and a
header says what becomes of the line ends at the end.
-/
import SchemaBundle.Json.Lexer
import SchemaBundle.Yaml.Cursor

namespace SchemaBundle

namespace Yaml

/-! ### The gap between two words -/

/-- Blanks and line ends between two runs of characters. -/
structure Gap where
  /-- The blanks, while no line end was met. -/
  blanks : List Char
  /-- The first line end. -/
  first : List Char
  /-- The other line ends. -/
  others : List Char
  /-- Whether a line end was met. -/
  crossed : Bool

/-- No gap. -/
def Gap.none : Gap :=
  ⟨[], [], [], false⟩

/-- What a gap reads as. -/
def Gap.text (g : Gap) : List Char :=
  if !g.crossed then g.blanks
  else if g.first = ['\n'] then (if g.others.isEmpty then [' '] else g.others)
  else g.first ++ g.others

/-- Read a gap to its end. A tab left of `indent` at the beginning of a line is
refused; `fuel` bounds the number of characters. -/
def readGap? (indent : Int) : Nat → Cursor → Gap → Option (Cursor × Gap)
  | 0, c, g => some (c, g)
  | fuel + 1, c, g =>
    match c.rest with
    | [] => some (c, g)
    | b :: _ =>
      if isBlank b then
        if g.crossed then
          if b = '\t' && (c.column : Int) < indent then Option.none
          else readGap? indent fuel c.skip g
        else readGap? indent fuel c.skip { g with blanks := g.blanks ++ [b] }
      else if isBreak b then
        if g.crossed then readGap? indent fuel c.skipLine { g with others := g.others ++ c.lineEnd }
        else
          readGap? indent fuel c.skipLine
            { g with blanks := [], first := c.lineEnd, crossed := true }
      else some (c, g)

/-! ### Plain scalars -/

/-- Characters that have a meaning inside brackets. -/
def isFlowIndicator (c : Char) : Bool :=
  c = ',' || c = '[' || c = ']' || c = '{' || c = '}'

/-- Read characters up to a blank or to what ends a plain scalar. Inside brackets a
colon right before an indicator is refused. -/
def plainRun? (inFlow : Bool) : List Char → Option (List Char)
  | [] => some []
  | c :: rest =>
    if isBlank c || isBreak c then some []
    else if inFlow && c = ':' && (rest.head?.any fun d => isFlowIndicator d || d = '?') then none
    else if (c = ':' && startsBlank rest) || (inFlow && isFlowIndicator c) then some []
    else (plainRun? inFlow rest).map (c :: ·)

/-- Read a plain scalar: its text, the cursor behind it and whether a line end was
crossed last. Outside brackets its lines stand at `indent` or to the right. -/
def plainFrom? (inFlow : Bool) (indent : Int) :
    Nat → Cursor → List Char → Gap → Option (List Char × Cursor × Bool)
  | 0, _, _, _ => none
  | fuel + 1, c, text, gap =>
    if c.atDocumentMark || c.sees '#' then some (text, c, gap.crossed)
    else do
      let run ← plainRun? inFlow c.rest
      let (text, gap) := if run.isEmpty then (text, gap) else (text ++ gap.text ++ run, Gap.none)
      let c := c.jump (c.rest.drop run.length)
      if c.rest.isEmpty || !startsBlank c.rest then some (text, c, gap.crossed)
      else
        let (c, gap) ← readGap? indent (c.rest.length + 1) c gap
        if !inFlow && (c.column : Int) < indent then some (text, c, gap.crossed)
        else plainFrom? inFlow indent fuel c text gap

/-- Read a plain scalar. -/
def plain? (inFlow : Bool) (indent : Int) (c : Cursor) : Option (List Char × Cursor × Bool) :=
  plainFrom? inFlow indent (c.rest.length + 2) c [] Gap.none

/-! ### Scalars in quotes -/

/-- What a letter after a backslash stands for. -/
def escape? (c : Char) : Option Char :=
  match c with
  | '0' => some '\x00'
  | 'a' => some '\x07'
  | 'b' => some '\x08'
  | 't' => some '\t'
  | '\t' => some '\t'
  | 'n' => some '\n'
  | 'v' => some '\x0b'
  | 'f' => some '\x0c'
  | 'r' => some '\r'
  | 'e' => some '\x1b'
  | ' ' => some ' '
  | '"' => some '"'
  | '/' => some '/'
  | '\\' => some '\\'
  | 'N' => some '\u0085'
  | '_' => some '\u00a0'
  | 'L' => some '\u2028'
  | 'P' => some '\u2029'
  | _ => none

/-- How many digits follow a letter that introduces a code. -/
def codeLength? (c : Char) : Option Nat :=
  if c = 'x' then some 2 else if c = 'u' then some 4 else if c = 'U' then some 8 else none

/-- The character whose code is written in hexadecimal digits. -/
def codeChar? (digits : List Char) : Option Char := do
  let code ← digits.foldlM (fun n c => (Json.hexDigit? c).map fun d => n * 16 + d) 0
  if (0xD800 ≤ code ∧ code ≤ 0xDFFF) ∨ 0x10FFFF < code then none else some (Char.ofNat code)

/-- Read characters in quotes up to a blank, the closing quote, or a backslash at the
end of a line; the characters are reversed. -/
def quotedRun? (single : Bool) : Nat → List Char → List Char → Option (List Char × List Char)
  | 0, done, rest => some (done, rest)
  | fuel + 1, done, rest =>
    match rest with
    | [] => some (done, [])
    | c :: after =>
      if isBlank c || isBreak c then some (done, rest)
      else if single then
        match c, after with
        | '\'', '\'' :: after => quotedRun? single fuel ('\'' :: done) after
        | '\'', _ => some (done, rest)
        | _, _ => quotedRun? single fuel (c :: done) after
      else if c = '"' then some (done, rest)
      else if c = '\\' then
        match after with
        | [] => none
        | e :: after =>
          if isBreak e then some (done, rest)
          else
            match codeLength? e with
            | some length => do
              let digits := after.take length
              if digits.length < length then none
              else quotedRun? single fuel ((← codeChar? digits) :: done) (after.drop length)
            | none => do quotedRun? single fuel ((← escape? e) :: done) after
      else quotedRun? single fuel (c :: done) after

/-- Read a scalar after its opening quote: its text and the cursor behind the closing
quote. -/
def quotedFrom? (single : Bool) : Nat → Cursor → List Char → Option (List Char × Cursor)
  | 0, _, _ => none
  | fuel + 1, c, text =>
    if c.atDocumentMark || c.rest.isEmpty then none
    else do
      let (run, rest) ← quotedRun? single (c.rest.length + 1) [] c.rest
      let text := text ++ run.reverse
      let c := c.jump rest
      if c.sees (if single then '\'' else '"') then some (text, c.skip)
      else
        let (c, gap) := if c.sees '\\' then (c.skip.skipLine, ⟨[], [], [], true⟩) else (c, Gap.none)
        let (c, gap) ← readGap? 0 (c.rest.length + 1) c gap
        quotedFrom? single fuel c (text ++ gap.text)

/-- Read a scalar in quotes. -/
def quoted? (single : Bool) (c : Cursor) : Option (List Char × Cursor) :=
  quotedFrom? single (c.rest.length + 2) c.skip []

/-! ### Blocks -/

/-- What becomes of the line ends at the end of a block. -/
inductive Chomping where
  /-- One is kept. -/
  | clip
  /-- None is kept. -/
  | strip
  /-- All are kept. -/
  | keep
  deriving DecidableEq

/-- The sign of a chomping, and the text after it. -/
def chomping? : List Char → Option (Chomping × List Char)
  | '+' :: rest => some (.keep, rest)
  | '-' :: rest => some (.strip, rest)
  | _ => none

/-- The digit of an indentation, and the text after it. -/
def indentation? : List Char → Option (Nat × List Char)
  | c :: rest => if c.isDigit then some (c.toNat - 48, rest) else none
  | [] => none

/-- Read the header of a block, in either order of sign and digit; the indentation
is 0 when there is none. -/
def blockHeader? (cs : List Char) : Option (Chomping × Nat × List Char) :=
  let nonzero (chomping : Chomping) (found : Option (Nat × List Char)) (cs : List Char) :
      Option (Chomping × Nat × List Char) :=
    match found with
    | some (0, _) => none
    | some (n, rest) => some (chomping, n, rest)
    | none => some (chomping, 0, cs)
  match chomping? cs with
  | some (chomping, rest) => nonzero chomping (indentation? rest) rest
  | none =>
    match nonzero .clip (indentation? cs) cs with
    | some (_, 0, rest) => some (.clip, 0, rest)
    | some (_, n, rest) =>
      match chomping? rest with
      | some (chomping, rest) => some (chomping, n, rest)
      | none => some (.clip, n, rest)
    | none => none

/-- Read indentation and empty lines; an indentation of 0 is still to be found. The
result has the line ends, the cursor and the largest column met. -/
def blockBreaks? (indent : Nat) :
    Nat → Cursor → List Char → Nat → Option (List Char × Cursor × Nat)
  | 0, c, breaks, widest => some (breaks, c, widest)
  | fuel + 1, c, breaks, widest =>
    let blanks := (c.rest.takeWhile (· = ' ')).length
    let c := c.jump (c.rest.drop (if indent = 0 then blanks else min blanks (indent - c.column)))
    let widest := max widest c.column
    if (indent = 0 || c.column < indent) && c.sees '\t' then none
    else if c.rest.isEmpty || !c.atLineEnd then some (breaks, c, widest)
    else blockBreaks? indent fuel c.skipLine (breaks ++ c.lineEnd) widest

/-- A block while it is read. -/
structure BlockState where
  /-- The text so far. -/
  text : List Char
  /-- The end of the last line. -/
  lineEnd : List Char
  /-- The empty lines after it. -/
  breaks : List Char
  /-- Whether the last line started with a blank. -/
  blankLine : Bool

/-- What stands between the last line and the next one. -/
def BlockState.joined (s : BlockState) (literal startsWithBlank : Bool) : List Char :=
  if !literal && s.lineEnd = ['\n'] && !s.blankLine && !startsWithBlank then
    if s.breaks.isEmpty then [' '] else s.breaks
  else s.lineEnd ++ s.breaks

/-- Read the lines of a block. -/
def blockLines? (literal : Bool) (indent : Nat) :
    Nat → Cursor → BlockState → Option (BlockState × Cursor)
  | 0, c, s => some (s, c)
  | fuel + 1, c, s =>
    if c.column ≠ indent || c.rest.isEmpty then some (s, c)
    else do
      let startsWithBlank := c.rest.head?.any isBlank
      let line := c.rest.takeWhile fun b => !isBreak b
      let after := c.jump (c.rest.drop line.length)
      let text := s.text ++ s.joined literal startsWithBlank ++ line
      let next := after.skipLine
      let (breaks, next, _) ← blockBreaks? indent (next.rest.length + 1) next [] 0
      blockLines? literal indent fuel next ⟨text, after.lineEnd, breaks, startsWithBlank⟩

/-- Read a block below the given indentation: its text and the cursor behind it. -/
def block? (literal : Bool) (parent : Int) (c : Cursor) : Option (List Char × Cursor) := do
  let (chomping, increment, rest) ← blockHeader? c.skip.rest
  let c := (c.jump rest).skipWhile isBlank
  let c := if c.sees '#' then c.skipWhile fun b => !isBreak b else c
  if !c.atLineEnd then none
  else
    let c := c.skipLine
    let given : Nat :=
      if increment = 0 then 0 else if 0 ≤ parent then parent.toNat + increment else increment
    let (breaks, c, widest) ← blockBreaks? given (c.rest.length + 1) c [] 0
    let indent := if given = 0 then max (max widest (parent + 1).toNat) 1 else given
    let (s, c) ← blockLines? literal indent (c.rest.length + 1) c ⟨[], [], breaks, false⟩
    let tail :=
      match chomping with
      | .strip => []
      | .clip => s.lineEnd
      | .keep => s.lineEnd ++ s.breaks
    return (s.text ++ tail, c)

end Yaml

end SchemaBundle
