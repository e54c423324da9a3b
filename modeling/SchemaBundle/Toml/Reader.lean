/-
Reading TOML text.

A text is a row of lines: headers, keys with values, comments.  Values may go over
several lines in arrays and in texts with three quotes.  Numbers, dates and times are
cut out as one run of characters and then recognised as a whole.
-/
import SchemaBundle.Json.Lexer
import SchemaBundle.Toml.Table

namespace SchemaBundle

namespace Toml

/-- A step of the reader, which fails where the text is not TOML. -/
abbrev Reading := StateT (List Char) Option

namespace Reading

/-- Fail. -/
def refuse {α : Type} : Reading α :=
  fun _ => none

/-- Fail unless a condition holds. -/
def require (condition : Bool) : Reading Unit :=
  if condition then pure () else refuse

/-- The next character. -/
def peek : Reading (Option Char) := do
  return (← get).head?

/-- Go over some characters. -/
def skip (n : Nat) : Reading Unit :=
  modify (List.drop n)

/-- Whether the text goes on with the given characters. -/
def sees (cs : List Char) : Reading Bool := do
  return (← get).take cs.length == cs

/-- Go over the given characters, if they stand here. -/
def skipIf (cs : List Char) : Reading Bool := do
  let here ← sees cs
  if here then skip cs.length
  return here

/-- The characters up to the first that fails a test. -/
def taking (test : Char → Bool) : Reading (List Char) := do
  let cs := (← get).takeWhile test
  skip cs.length
  return cs

/-! ### Blanks, comments, line ends -/

/-- Characters that may stand in comments and texts: no controls but the tab. -/
def isText (c : Char) : Bool :=
  c = '\t' || (0x20 ≤ c.toNat && c.toNat ≠ 0x7F)

/-- Go over blanks. -/
def blanks : Reading Unit := do
  let _ ← taking fun c => c = ' ' || c = '\t'

/-- Go over a comment, if one stands here. -/
def comment : Reading Unit := do
  if ← sees ['#'] then
    let _ ← taking isText

/-- Go over the end of a line; the end of the text counts as one. -/
def lineEnd : Reading Unit := do
  if (← get).isEmpty || (← skipIf ['\n']) || (← skipIf ['\r', '\n']) then pure () else refuse

/-- Go over blanks, comments and line ends; `fuel` bounds the number of lines. -/
def space : Nat → Reading Unit
  | 0 => pure ()
  | fuel + 1 => do
    blanks
    comment
    if (← skipIf ['\n']) || (← skipIf ['\r', '\n']) then space fuel

/-! ### Texts -/

/-- What a letter after a backslash stands for. -/
def escape? (c : Char) : Option Char :=
  match c with
  | 'b' => some '\x08'
  | 't' => some '\t'
  | 'n' => some '\n'
  | 'f' => some '\x0c'
  | 'r' => some '\r'
  | '"' => some '"'
  | '\\' => some '\\'
  | _ => none

/-- The character whose code is written in hexadecimal digits. -/
def codeChar (length : Nat) : Reading Char := do
  let digits := (← get).take length
  skip length
  require (digits.length = length)
  match digits.foldlM (fun n c => (Json.hexDigit? c).map fun d => n * 16 + d) 0 with
  | some code =>
    require (code < 0xD800 || (0xDFFF < code && code ≤ 0x10FFFF))
    return Char.ofNat code
  | none => refuse

/-- The character that an escape behind a backslash stands for. -/
def escape : Reading Char := do
  match ← peek with
  | none => refuse
  | some c =>
    skip 1
    if c = 'u' then codeChar 4
    else if c = 'U' then codeChar 8
    else
      match escape? c with
      | some c => return c
      | none => refuse

/-- The rest of a text on one line, up to its closing quote. -/
def lineText (quote : Char) : Nat → List Char → Reading String
  | 0, _ => refuse
  | fuel + 1, done => do
    match ← peek with
    | none => refuse
    | some c =>
      skip 1
      if c = quote then return String.ofList done.reverse
      else if c = '\\' && quote = '"' then lineText quote fuel ((← escape) :: done)
      else do
        require (isText c)
        lineText quote fuel (c :: done)

/-- The rest of a text with three quotes. One or two more quotes right before the
closing ones belong to the text. -/
def longText (quote : Char) : Nat → List Char → Reading String
  | 0, _ => refuse
  | fuel + 1, done => do
    if ← skipIf [quote, quote, quote] then
      let extra := min ((← get).takeWhile (· = quote)).length 2
      skip extra
      return String.ofList (List.replicate extra quote ++ done).reverse
    else if (← skipIf ['\n']) || (← skipIf ['\r', '\n']) then longText quote fuel ('\n' :: done)
    else
      match ← peek with
      | none => refuse
      | some c =>
        skip 1
        if c = '\\' && quote = '"' then
          let rest := (← get).dropWhile fun c => c = ' ' || c = '\t'
          if rest.head? = some '\n' || rest.take 2 = ['\r', '\n'] then
            let _ ← taking fun c => c = ' ' || c = '\t' || c = '\n' || c = '\r'
            longText quote fuel done
          else longText quote fuel ((← escape) :: done)
        else do
          require (isText c)
          longText quote fuel (c :: done)

/-- A text in quotes of the given kind. -/
def text (quote : Char) (mayBeLong : Bool) : Reading String := do
  let fuel := (← get).length + 1
  if mayBeLong && (← skipIf [quote, quote, quote]) then
    if !(← skipIf ['\n']) then
      let _ ← skipIf ['\r', '\n']
    longText quote fuel []
  else
    skip 1
    lineText quote fuel []

/-! ### Keys -/

/-- Characters of keys without quotes. -/
def isKeyChar (c : Char) : Bool :=
  c.isAlphanum || c = '_' || c = '-'

/-- One part of a key. -/
def keyPart : Reading String := do
  match ← peek with
  | some '"' => text '"' false
  | some '\'' => text '\'' false
  | _ =>
    let part ← taking isKeyChar
    require !part.isEmpty
    return String.ofList part

/-- A key: parts with dots between them; `fuel` bounds their number. -/
def key : Nat → Reading (List String)
  | 0 => refuse
  | fuel + 1 => do
    blanks
    let part ← keyPart
    blanks
    if ← skipIf ['.'] then return part :: (← key fuel) else return [part]

/-! ### Numbers, dates and times -/

/-- Digits with single underscores between them. -/
def isDigitRun (test : Char → Bool) : List Char → Bool
  | [] => false
  | [c] => test c
  | c :: '_' :: rest => test c && isDigitRun test rest
  | c :: rest => test c && isDigitRun test rest

/-- A decimal number without sign and without needless zeros. -/
def isPlainDecimal (cs : List Char) : Bool :=
  isDigitRun Char.isDigit cs && (cs.length = 1 || cs.head? ≠ some '0')

/-- The text behind a sign. -/
def unsigned (cs : List Char) : List Char :=
  match cs with
  | '+' :: rest => rest
  | '-' :: rest => rest
  | _ => cs

/-- The number that digits write in a base. -/
def digitsIn (base : Nat) (cs : List Char) : Nat :=
  cs.foldl (fun n c => match Json.hexDigit? c with
    | some d => n * base + d
    | none => n) 0

/-- The whole number in a base that the text announces. -/
def based? (cs : List Char) : Option Nat :=
  let digits (base : Nat) (rest : List Char) : Option Nat :=
    if isDigitRun (fun c => (Json.hexDigit? c).any (· < base)) rest then some (digitsIn base rest)
    else none
  match cs with
  | '0' :: 'x' :: rest => digits 16 rest
  | '0' :: 'o' :: rest => digits 8 rest
  | '0' :: 'b' :: rest => digits 2 rest
  | _ => none

/-- The whole number that a text writes, in signed range. -/
def int? (cs : List Char) : Option Int :=
  let inRange (n : Int) : Option Int :=
    if -9223372036854775808 ≤ n ∧ n ≤ 9223372036854775807 then some n else none
  match based? cs with
  | some n => inRange n
  | none =>
    if isPlainDecimal (unsigned cs) then
      let n : Int := digitsIn 10 (unsigned cs)
      inRange (if cs.head? = some '-' then -n else n)
    else none

/-- Whether a text is an exponent with its letter. -/
def isExponent : List Char → Bool
  | c :: rest => (c = 'e' || c = 'E') && isDigitRun Char.isDigit (unsigned rest)
  | [] => false

/-- Whether a text is a number with a point, an exponent or a name. -/
def isFloat (cs : List Char) : Bool :=
  let cs := unsigned cs
  let whole := cs.takeWhile fun c => c.isDigit || c = '_'
  let rest := cs.drop whole.length
  let fractional :=
    match rest with
    | '.' :: rest =>
      let digits := rest.takeWhile fun c => c.isDigit || c = '_'
      let rest := rest.drop digits.length
      isDigitRun Char.isDigit digits && (rest.isEmpty || isExponent rest)
    | _ => isExponent rest
  ["inf".toList, "nan".toList].contains cs || (isPlainDecimal whole && fractional)

/-- Whether the digits of a number name more than the largest double.  Below zero
nothing is too much, and neither is a name. -/
def isTooLarge (cs : List Char) : Bool :=
  let cs := cs.filter (· ≠ '_')
  let whole := (unsigned cs).takeWhile Char.isDigit
  let behind := (unsigned cs).drop whole.length
  let fraction := if behind.head? = some '.' then (behind.drop 1).takeWhile Char.isDigit else []
  let exponent := match behind.find? (fun c => c = 'e' || c = 'E') with
    | some e => (Json.exponent? ((behind.dropWhile (· ≠ e)).drop 1)).map Prod.fst
    | none => none
  let significand := Json.digitsValue (whole ++ fraction)
  cs.head? ≠ some '-' && !whole.isEmpty &&
    (Double.exactDecimal? false significand (exponent.getD 0 - (fraction.length : Int))).isNone

/-- The number that exactly `n` digits write at the beginning of a text. -/
def fixed? (n : Nat) (cs : List Char) : Option (Nat × List Char) :=
  let digits := cs.take n
  if digits.length = n && digits.all Char.isDigit then some (Json.digitsValue digits, cs.drop n)
  else none

/-- Numbers of fixed length with a separator between them. -/
def fixedRow? (separator : Char) : List Nat → List Char → Option (List Nat × List Char)
  | [], cs => some ([], cs)
  | [n], cs => (fixed? n cs).map fun (v, rest) => ([v], rest)
  | n :: more, cs => do
    let (v, rest) ← fixed? n cs
    match rest with
    | c :: rest =>
      if c = separator then
        let (vs, rest) ← fixedRow? separator more rest
        return (v :: vs, rest)
      else none
    | [] => none

/-- How many days a month has. -/
def daysIn (year month : Nat) : Nat :=
  if month = 2 then
    if year % 4 = 0 && (year % 100 ≠ 0 || year % 400 = 0) then 29 else 28
  else if [4, 6, 9, 11].contains month then 30
  else 31

/-- What follows a date at the beginning of a text. -/
def afterDate? (cs : List Char) : Option (List Char) := do
  match ← fixedRow? '-' [4, 2, 2] cs with
  | ([year, month, day], rest) =>
    if 1 ≤ month ∧ month ≤ 12 ∧ 1 ≤ day ∧ day ≤ daysIn year month then some rest else none
  | _ => none

/-- What follows a time of day at the beginning of a text. -/
def afterTime? (cs : List Char) : Option (List Char) := do
  match ← fixedRow? ':' [2, 2, 2] cs with
  | ([hour, minute, second], rest) =>
    if hour ≤ 23 ∧ minute ≤ 59 ∧ second ≤ 60 then
      match rest with
      | '.' :: rest =>
        if rest.head?.any Char.isDigit then some (rest.dropWhile Char.isDigit) else none
      | _ => some rest
    else none
  | _ => none

/-- Whether a text is the distance of a time zone, or nothing. -/
def isOffset (cs : List Char) : Bool :=
  match cs with
  | [] => true
  | ['Z'] => true
  | ['z'] => true
  | c :: rest =>
    (c = '+' || c = '-') &&
      match fixedRow? ':' [2, 2] rest with
      | some ([hour, minute], []) => decide (hour ≤ 23 ∧ minute ≤ 59)
      | _ => false

/-- Whether a text is a time of day with or without the distance of its zone. -/
def isZonedTime (cs : List Char) : Bool :=
  (afterTime? cs).any isOffset

/-- Whether a text is a date, a time or both. -/
def isMoment (cs : List Char) : Bool :=
  afterTime? cs = some [] ||
    match afterDate? cs with
    | some [] => true
    | some (c :: rest) => (c = 'T' || c = 't' || c = ' ') && isZonedTime rest
    | none => false

/-- Characters of numbers, dates and times. -/
def isRunChar (c : Char) : Bool :=
  c.isAlphanum || c = '+' || c = '-' || c = '_' || c = '.' || c = ':'

/-- A value that is one run of characters; a blank may stand between a date and a
time. -/
def bareValue : Reading Item := do
  let cs ← taking isRunChar
  let rest ← get
  let time := (rest.drop 1).takeWhile isRunChar
  if cs = "true".toList then return .flag true
  else if cs = "false".toList then return .flag false
  else if afterDate? cs = some [] && rest.head? = some ' ' && isZonedTime time then
    skip (time.length + 1)
    return .other
  else
    match int? cs with
    | some n => return .int n
    | none =>
      require ((isFloat cs && !isTooLarge cs) || isMoment cs)
      return .other

/-! ### Values -/

/-- The items of an array behind its opening bracket; `fuel` bounds their number. -/
def items (value : Reading Item) : Nat → Reading (List Item)
  | 0 => refuse
  | fuel + 1 => do
    space fuel
    if ← skipIf [']'] then return []
    else
      let item ← value
      space fuel
      if ← skipIf [','] then return item :: (← items value fuel)
      else
        require (← skipIf [']'])
        return [item]

/-- The entries of a table behind its opening brace, which stands on one line. -/
def braced (value : Reading Item) : Nat → Rows → Reading Rows
  | 0, _ => refuse
  | fuel + 1, rows => do
    let path ← key fuel
    require (← skipIf ['='])
    blanks
    let item ← value
    blanks
    match rows.assign path item .header with
    | none => refuse
    | some rows =>
      if ← skipIf [','] then braced value fuel rows
      else
        require (← skipIf ['\x7d'])
        return rows

/-- The deepest nesting of arrays and tables in values. -/
def maxDepth : Nat :=
  80

/-- A value with at most the given depth. -/
def value : Nat → Reading Item
  | 0 => refuse
  | depth + 1 => do
    let fuel := (← get).length + 1
    match ← peek with
    | some '"' => return .text (← text '"' true)
    | some '\'' => return .text (← text '\'' true)
    | some '[' =>
      skip 1
      return .array (← items (value depth) fuel)
    | some '\x7b' =>
      skip 1
      blanks
      if ← skipIf ['\x7d'] then return .table .braces []
      else return .table .braces (← braced (value depth) fuel [])
    | _ => bareValue

/-! ### Documents -/

/-- A document while it is read. -/
structure Draft where
  /-- The rows of the document. -/
  root : Rows
  /-- The path of the table that the last header opened. -/
  place : List String

/-- The path in a header, up to its closing brackets. -/
def headerPath (fuel : Nat) (closing : List Char) : Reading (List String) := do
  let path ← key fuel
  require (← skipIf closing)
  return path

/-- One line. -/
def line (fuel : Nat) (d : Draft) : Reading Draft := do
  blanks
  let d ←
    if ← skipIf ['[', '['] then
      let place ← headerPath fuel [']', ']']
      match d.root.openElement place with
      | some root => pure (Draft.mk root place)
      | none => refuse
    else if ← skipIf ['['] then
      let place ← headerPath fuel [']']
      match d.root.openTable place with
      | some root => pure (Draft.mk root place)
      | none => refuse
    else
      let next ← peek
      if next.isNone || next = some '#' || next = some '\n' || next = some '\r' then pure d
      else
        let path ← key fuel
        require (← skipIf ['='])
        blanks
        let item ← value maxDepth
        match Rows.change false (Rows.assign path item) d.place .header d.root with
        | some root => pure { d with root }
        | none => refuse
  blanks
  comment
  lineEnd
  return d

/-- All lines; `fuel` bounds their number. -/
def document : Nat → Draft → Reading Rows
  | 0, _ => refuse
  | fuel + 1, d => do
    if (← get).isEmpty then return d.root else document fuel (← line fuel d)

end Reading

/-- The rows of a text. -/
def rows? (text : String) : Option Rows :=
  let cs := match text.toList with
    | '\ufeff' :: rest => rest
    | cs => cs
  ((Reading.document (cs.length + 2) ⟨[], []⟩).run cs).map Prod.fst

/-- The settings of a text. -/
def settings? (text : String) : Option Setting :=
  (rows? text).map fun rows => .group (rowSettings rows)

end Toml

end SchemaBundle
