/-
Tokens of a YAML text.

Indentation is made explicit: where a line starts further right than the block around
it, a token opens a block, and where a line starts further left, tokens close the
blocks that end.  That a scalar is a key is known only when the colon after it is
met; the places where a key may have started are kept, one for each level of
brackets, and the key token is put in there afterwards.  Such a key ends on its line
and has at most 1024 characters.
-/
import SchemaBundle.Url.Percent
import SchemaBundle.Yaml.Scalar

namespace SchemaBundle

namespace Yaml

/-- A token of a YAML text. -/
inductive Token where
  /-- The version of the language, in a line of its own. -/
  | version (major minor : Nat)
  /-- A short form for tags, in a line of its own. -/
  | tagHandle (handle stands : String)
  /-- Three hyphens. -/
  | documentStart
  /-- Three dots. -/
  | documentEnd
  | blockSequenceStart
  | blockMappingStart
  | blockEnd
  | flowSequenceStart
  | flowSequenceEnd
  | flowMappingStart
  | flowMappingEnd
  | blockEntry
  | flowEntry
  | key
  | value
  | alias (name : String)
  | anchor (name : String)
  /-- A tag: the handle of a short form and the rest. -/
  | tag (handle suffix : String)
  | scalar (text : String) (plain : Bool)
  deriving DecidableEq, Inhabited

/-- A place where a key may have started. -/
structure KeyPlace where
  /-- How many tokens came before. -/
  tokens : Nat
  /-- Whether nothing else than a key can stand there. -/
  required : Bool
  /-- The place in the text. -/
  index : Nat
  /-- The line of the place. -/
  line : Nat
  /-- The column of the place. -/
  column : Nat

/-- The reader of tokens. -/
structure Scanner where
  /-- The place in the text. -/
  cursor : Cursor
  /-- The tokens so far, reversed. -/
  tokens : List Token
  /-- How many tokens there are. -/
  count : Nat
  /-- The indentation of the block around, -1 outside all blocks. -/
  indent : Int
  /-- The indentations of the blocks further out. -/
  outer : List Int
  /-- Whether a key may start here. -/
  keyAllowed : Bool
  /-- Where a key may have started, at this level of brackets. -/
  place : Option KeyPlace
  /-- The same for the levels further out. -/
  places : List (Option KeyPlace)

namespace Scanner

/-- The reader at the beginning of a text. -/
def start (text : List Char) : Scanner :=
  { cursor := .start text, tokens := [], count := 0, indent := -1, outer := []
    keyAllowed := true, place := none, places := [] }

/-- Whether the place is inside brackets. -/
def inFlow (s : Scanner) : Bool :=
  !s.places.isEmpty

/-- Add a token. -/
def emit (s : Scanner) (token : Token) : Scanner :=
  { s with tokens := token :: s.tokens, count := s.count + 1 }

/-- Add a token behind the first `position` ones. -/
def emitAt (s : Scanner) (position : Nat) (token : Token) : Scanner :=
  let later := s.count - position
  { s with tokens := s.tokens.take later ++ token :: s.tokens.drop later, count := s.count + 1 }

/-- Close the blocks that are further right than a column. -/
def unroll (column : Int) (outer : List Int) (s : Scanner) : Scanner :=
  if s.indent ≤ column then s
  else
    match outer with
    | [] => s
    | indent :: outer => unroll column outer { s.emit .blockEnd with indent, outer }

/-- Close blocks up to a column; brackets hold no blocks. -/
def closeBlocks (s : Scanner) (column : Int) : Scanner :=
  if s.inFlow then s else s.unroll column s.outer

/-- Open a block at a column that is further right than the block around. -/
def openBlock (s : Scanner) (column position : Nat) (token : Token) : Scanner :=
  if s.inFlow || (column : Int) ≤ s.indent then s
  else { s.emitAt position token with indent := column, outer := s.indent :: s.outer }

/-- Whether a place is too far back for a key that ends here. -/
def isStale (c : Cursor) (place : KeyPlace) : Bool :=
  place.line < c.line || place.index + 1024 < c.index

/-- Forget a place that is too far back; one that needs a key is an error. -/
def dropStale? (c : Cursor) : Option KeyPlace → Option (Option KeyPlace)
  | none => some none
  | some place =>
    if isStale c place then (if place.required then none else some none) else some (some place)

/-- Forget all places that are too far back. -/
def dropAllStale? (s : Scanner) : Option Scanner := do
  let place ← dropStale? s.cursor s.place
  let places ← s.places.mapM (dropStale? s.cursor)
  return { s with place, places }

/-- Forget the place where a key may have started. -/
def forget? (s : Scanner) : Option Scanner :=
  if s.place.any KeyPlace.required then none else some { s with place := none }

/-- Remember that a key may start here. -/
def remember? (s : Scanner) : Option Scanner :=
  if s.keyAllowed then do
    let s ← s.forget?
    let c := s.cursor
    let required := !s.inFlow && s.indent == (c.column : Int)
    return { s with place := some ⟨s.count, required, c.index, c.line, c.column⟩ }
  else some s

/-- Go over one character. -/
def skip (s : Scanner) : Scanner :=
  { s with cursor := s.cursor.skip }

/-! ### To the next token -/

/-- Go over blanks, comments and line ends. A tab counts as a blank where no key may
start. -/
def toNext : Nat → Scanner → Scanner
  | 0, s => s
  | fuel + 1, s =>
    let c := if s.cursor.index = 0 && s.cursor.sees '\ufeff' then s.cursor.skip else s.cursor
    let c := c.skipWhile fun b => b = ' ' || (b = '\t' && (s.inFlow || !s.keyAllowed))
    let c := if c.sees '#' then c.skipWhile fun b => !isBreak b else c
    if c.rest.isEmpty || !c.atLineEnd then { s with cursor := c }
    else
      toNext fuel { s with cursor := c.skipLine, keyAllowed := s.keyAllowed || !s.inFlow }

/-! ### Lines that start with a percent sign -/

/-- Read a number of at most nine digits. -/
def number? (c : Cursor) : Option (Nat × Cursor) :=
  let digits := c.rest.takeWhile Char.isDigit
  if digits.isEmpty || 9 < digits.length then none
  else some (Json.digitsValue digits, c.jump (c.rest.drop digits.length))

/-- Characters of tags. -/
def isTagChar (withBrackets : Bool) (c : Char) : Bool :=
  isNameChar c || ";/?:@&=+$.!~*'()".toList.contains c ||
    (withBrackets && (c = ',' || c = '[' || c = ']'))

/-- How many bytes the character has whose UTF-8 form starts with a byte. -/
def utf8Length? (first : Nat) : Option Nat :=
  if first < 0x80 then some 1
  else if 0xC0 ≤ first ∧ first < 0xE0 then some 2
  else if 0xE0 ≤ first ∧ first < 0xF0 then some 3
  else if 0xF0 ≤ first ∧ first < 0xF8 then some 4
  else none

/-- Read escaped bytes. -/
def escapedBytes? : Nat → List Char → Option (List UInt8 × List Char)
  | 0, rest => some ([], rest)
  | n + 1, '%' :: a :: b :: rest => do
    let byte := UInt8.ofNat ((← Json.hexDigit? a) * 16 + (← Json.hexDigit? b))
    let (bytes, rest) ← escapedBytes? n rest
    return (byte :: bytes, rest)
  | _, _ => none

/-- Read a character that is written as escaped bytes. -/
def escapedChar? (cs : List Char) : Option (List Char × List Char) := do
  let (first, _) ← escapedBytes? 1 cs
  let length ← first.head?.bind fun b => utf8Length? b.toNat
  let (bytes, rest) ← escapedBytes? length cs
  let text ← String.fromUTF8? ⟨bytes.toArray⟩
  return (text.toList, rest)

/-- Read the text of a tag; the result is reversed. -/
def tagText? (withBrackets : Bool) : Nat → List Char → List Char → Option (List Char × List Char)
  | 0, done, rest => some (done, rest)
  | fuel + 1, done, rest =>
    match rest with
    | [] => some (done, [])
    | c :: after =>
      if c = '%' then do
        let (char, after) ← escapedChar? rest
        tagText? withBrackets fuel (char.reverse ++ done) after
      else if isTagChar withBrackets c then tagText? withBrackets fuel (c :: done) after
      else some (done, rest)

/-- Read the text of a tag at a cursor, behind a part that was read already. -/
def tagRest? (withBrackets : Bool) (before : List Char) (c : Cursor) :
    Option (List Char × Cursor) := do
  let (done, rest) ← tagText? withBrackets (c.rest.length + 1) [] c.rest
  return (before ++ done.reverse, c.jump rest)

/-- Read the handle of a tag: an exclamation mark, a name and another mark; only the
first is needed. -/
def handle? (c : Cursor) : Option (List Char × Cursor) :=
  match c.rest with
  | '!' :: rest =>
    let name := rest.takeWhile isNameChar
    match rest.drop name.length with
    | '!' :: after => some ('!' :: name ++ ['!'], c.jump after)
    | after => some ('!' :: name, c.jump after)
  | _ => none

/-- Read what a line that starts with a percent sign declares. -/
def declaration? (name : String) (c : Cursor) : Option (Token × Cursor) :=
  if name = "YAML" then do
    let (major, c) ← number? c
    if !c.sees '.' then none
    else
      let (minor, c) ← number? c.skip
      return (.version major minor, c)
  else if name = "TAG" then do
    let (handle, c) ← handle? c
    if handle ≠ ['!'] && handle.getLast? ≠ some '!' then none
    else if !(c.rest.head?.any isBlank) then none
    else
      let (stands, c) ← tagRest? true [] (c.skipWhile isBlank)
      if stands.isEmpty || !startsBlank c.rest then none
      else return (.tagHandle (String.ofList handle) (String.ofList stands), c)
  else none

/-- Read a line that starts with a percent sign. -/
def directive? (c : Cursor) : Option (Token × Cursor) := do
  let c := c.skip
  let name := c.rest.takeWhile isNameChar
  let c := c.jump (c.rest.drop name.length)
  if name.isEmpty || !startsBlank c.rest then none
  else
    let (token, c) ← declaration? (String.ofList name) (c.skipWhile isBlank)
    let c := c.skipWhile isBlank
    let c := if c.sees '#' then c.skipWhile fun b => !isBreak b else c
    if c.atLineEnd then return (token, c.skipLine) else none

/-! ### Names and tags -/

/-- Read the name of an anchor or an alias. -/
def name? (c : Cursor) : Option (String × Cursor) :=
  let c := c.skip
  let name := c.rest.takeWhile isNameChar
  let c := c.jump (c.rest.drop name.length)
  let ended := startsBlank c.rest || (c.rest.head?.any fun b => "?:,]\x7d%@`".toList.contains b)
  if name.isEmpty || !ended then none else some (String.ofList name, c)

/-- Read a tag. -/
def tag? (inFlow : Bool) (c : Cursor) : Option (Token × Cursor) := do
  let (handle, suffix, c) ←
    match c.rest with
    | '!' :: '<' :: rest => do
      let (suffix, c) ← tagRest? true [] (c.jump rest)
      if suffix.isEmpty || !c.sees '>' then none else some (([] : List Char), suffix, c.skip)
    | _ => do
      let (handle, after) ← handle? c
      if 1 < handle.length && handle.getLast? = some '!' then
        let (suffix, after) ← tagRest? false [] after
        if suffix.isEmpty then none else some (handle, suffix, after)
      else
        let (suffix, after) ← tagRest? false (handle.drop 1) after
        if suffix.isEmpty then some ([], ['!'], after) else some (['!'], suffix, after)
  if startsBlank c.rest || (inFlow && c.sees ',') then
    some (.tag (String.ofList handle) (String.ofList suffix), c)
  else none

/-! ### The next token -/

/-- Close everything in front of a line that stands by itself. -/
def closeAll? (s : Scanner) : Option Scanner := do
  let s ← (s.closeBlocks (-1)).forget?
  return { s with keyAllowed := false }

/-- Read the start of brackets. -/
def openFlow? (s : Scanner) (token : Token) : Option Scanner := do
  let s ← s.remember?
  return { s.skip.emit token with places := s.place :: s.places, place := none, keyAllowed := true }

/-- Read the end of brackets. -/
def closeFlow? (s : Scanner) (token : Token) : Option Scanner := do
  let s ← s.forget?
  let s := match s.places with
    | [] => s
    | place :: places => { s with place, places }
  return { s.skip.emit token with keyAllowed := false }

/-- Read the comma between entries in brackets. -/
def flowEntry? (s : Scanner) : Option Scanner := do
  let s ← s.forget?
  return { s.skip.emit .flowEntry with keyAllowed := true }

/-- Read the hyphen in front of an entry. -/
def blockEntry? (s : Scanner) : Option Scanner := do
  if !s.inFlow && !s.keyAllowed then none
  else
    let s ← (s.openBlock s.cursor.column s.count .blockSequenceStart).forget?
    return { s.skip.emit .blockEntry with keyAllowed := true }

/-- Read the question mark in front of a key. -/
def key? (s : Scanner) : Option Scanner := do
  if !s.inFlow && !s.keyAllowed then none
  else
    let s ← (s.openBlock s.cursor.column s.count .blockMappingStart).forget?
    return { s.skip.emit .key with keyAllowed := !s.inFlow }

/-- Read the colon behind a key. -/
def value? (s : Scanner) : Option Scanner :=
  match s.place with
  | some place =>
    let s := (s.emitAt place.tokens .key).openBlock place.column place.tokens .blockMappingStart
    some { s.skip.emit .value with place := none, keyAllowed := false }
  | none =>
    if !s.inFlow && !s.keyAllowed then none
    else
      let s := s.openBlock s.cursor.column s.count .blockMappingStart
      some { s.skip.emit .value with keyAllowed := !s.inFlow }

/-- Read a token that may be a key, with a reader for its text. -/
def keyLike? (s : Scanner) (read : Cursor → Option (Token × Cursor)) : Option Scanner := do
  let s ← s.remember?
  let (token, cursor) ← read s.cursor
  return { s.emit token with cursor, keyAllowed := false }

/-- Read a block of text. -/
def block? (s : Scanner) (literal : Bool) : Option Scanner := do
  let s ← s.forget?
  let (text, cursor) ← Yaml.block? literal s.indent s.cursor
  return { s.emit (.scalar (String.ofList text) false) with cursor, keyAllowed := true }

/-- Read a plain scalar; a line end at its end lets a key start again. -/
def plain? (s : Scanner) : Option Scanner := do
  let s ← s.remember?
  let (text, cursor, crossed) ← Yaml.plain? s.inFlow (s.indent + 1) s.cursor
  return { s.emit (.scalar (String.ofList text) true) with cursor, keyAllowed := crossed }

/-- Characters that start no plain scalar. -/
def isIndicator (c : Char) : Bool :=
  "-?:,[]\x7b\x7d#&*!|>'\"%@`".toList.contains c

/-- Read the token at the cursor, which starts with the character `c`. -/
def next? (s : Scanner) (c : Char) (rest : List Char) : Option Scanner :=
  let blank := startsBlank rest
  let flow := s.inFlow
  if s.cursor.column = 0 && c = '%' then do
    let s ← s.closeAll?
    let (token, cursor) ← directive? s.cursor
    return { s.emit token with cursor }
  else if s.cursor.atDocumentMark then do
    let s ← s.closeAll?
    let cursor := s.cursor.skip.skip.skip
    return { s.emit (if c = '-' then .documentStart else .documentEnd) with cursor }
  else if c = '[' then s.openFlow? .flowSequenceStart
  else if c = '\x7b' then s.openFlow? .flowMappingStart
  else if c = ']' then s.closeFlow? .flowSequenceEnd
  else if c = '\x7d' then s.closeFlow? .flowMappingEnd
  else if c = ',' then s.flowEntry?
  else if c = '-' && blank then s.blockEntry?
  else if c = '?' && (flow || blank) then s.key?
  else if c = ':' && (flow || blank) then s.value?
  else if c = '*' then s.keyLike? fun c => (name? c).map fun (name, c) => (.alias name, c)
  else if c = '&' then s.keyLike? fun c => (name? c).map fun (name, c) => (.anchor name, c)
  else if c = '!' then s.keyLike? (tag? flow)
  else if c = '|' && !flow then s.block? true
  else if c = '>' && !flow then s.block? false
  else if c = '\'' || c = '"' then
    s.keyLike? fun cursor => (quoted? (c = '\'') cursor).map fun (text, cursor) =>
      (.scalar (String.ofList text) false, cursor)
  else if !(isBlank c || isIndicator c) || (c = '-' && !(rest.head?.any isBlank)) ||
      (!flow && (c = '?' || c = ':') && !blank) then s.plain?
  else none

/-- The reader at the end of the text. -/
def finish? (s : Scanner) : Option Scanner :=
  (s.closeBlocks (-1)).forget?

/-- Read tokens to the end of the text; `fuel` bounds their number. -/
def run? : Nat → Scanner → Option Scanner
  | 0, _ => none
  | fuel + 1, s => do
    let s ← (toNext (s.cursor.rest.length + 1) s).dropAllStale?
    let s := s.closeBlocks s.cursor.column
    match s.cursor.rest with
    | [] => s.finish?
    | c :: rest => run? fuel (← s.next? c rest)

end Scanner

/-- The tokens of a text. Every token but those made from indentation takes a
character, so there are no more rounds than characters. -/
def tokens? (text : String) : Option (List Token) :=
  let cs := text.toList
  if !cs.all isAllowed then none
  else (Scanner.run? (cs.length + 2) (Scanner.start cs)).map fun s => s.tokens.reverse

end Yaml

end SchemaBundle
