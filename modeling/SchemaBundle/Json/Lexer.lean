/-
Tokens of JSON text.

A scalar is one token and carries its value.  Whole numbers that fit 64 bits,
signed or unsigned, stay whole; `-0` and longer ones become doubles.  Of a number
with a point or an exponent only the digits that fit 64 bits count, the others are
dropped.  A surrogate escape is read only as one half of a pair.
-/
import SchemaBundle.Decimal.Reading
import SchemaBundle.Json.Basic

namespace SchemaBundle

namespace Json

/-- A token of JSON text. -/
inductive Token where
  | openArray
  | closeArray
  | openObject
  | closeObject
  | comma
  | colon
  | scalar (value : Json)
  deriving Inhabited

/-- The characters between tokens. -/
def isBlank (c : Char) : Bool :=
  c = ' ' || c = '\t' || c = '\n' || c = '\r'

/-! ### Strings -/

/-- The value of a hexadecimal digit. -/
def hexDigit? (c : Char) : Option Nat :=
  if '0' ≤ c ∧ c ≤ '9' then some (c.toNat - 48)
  else if 'a' ≤ c ∧ c ≤ 'f' then some (c.toNat - 87)
  else if 'A' ≤ c ∧ c ≤ 'F' then some (c.toNat - 55)
  else none

/-- The code unit that four hexadecimal digits write. -/
def codeUnit? (a b c d : Char) : Option Nat := do
  return (← hexDigit? a) * 4096 + (← hexDigit? b) * 256 + (← hexDigit? c) * 16 + (← hexDigit? d)

/-- The character that one of the short escapes stands for. -/
def shortEscape? (c : Char) : Option Char :=
  if c = '"' then some '"'
  else if c = '\\' then some '\\'
  else if c = '/' then some '/'
  else if c = 'b' then some '\x08'
  else if c = 'f' then some '\x0c'
  else if c = 'n' then some '\n'
  else if c = 'r' then some '\r'
  else if c = 't' then some '\t'
  else none

/-- Read a string after its opening quote: its characters, and the text after the
closing quote. -/
def stringBody? (done : List Char) : List Char → Option (List Char × List Char)
  | [] => none
  | '"' :: rest => some (done.reverse, rest)
  | '\\' :: 'u' :: a :: b :: c :: d :: rest =>
    match codeUnit? a b c d with
    | none => none
    | some high =>
      if 0xDC00 ≤ high ∧ high ≤ 0xDFFF then none
      else if 0xD800 ≤ high ∧ high ≤ 0xDBFF then
        match rest with
        | '\\' :: 'u' :: e :: f :: g :: h :: after =>
          match codeUnit? e f g h with
          | none => none
          | some low =>
            if 0xDC00 ≤ low ∧ low ≤ 0xDFFF then
              let code := 0x10000 + (high - 0xD800) * 0x400 + (low - 0xDC00)
              stringBody? (Char.ofNat code :: done) after
            else none
        | _ => none
      else stringBody? (Char.ofNat high :: done) rest
  | '\\' :: c :: rest =>
    match shortEscape? c with
    | none => none
    | some plain => stringBody? (plain :: done) rest
  | c :: rest => if c.toNat < 0x20 ∨ c = '\\' then none else stringBody? (c :: done) rest

/-! ### Numbers -/

/-- The largest significand that is kept. -/
def maxSignificand : Nat :=
  Nat.pow 2 64 - 1

/-- Append digits to a significand while it fits; the digits left over are
returned. -/
def takeDigits (significand : Nat) : List Char → Nat × List Char
  | [] => (significand, [])
  | c :: rest =>
    let next := significand * 10 + (c.toNat - 48)
    if maxSignificand < next then (significand, c :: rest) else takeDigits next rest

/-- The whole number that digits write. -/
def digitsValue (digits : List Char) : Nat :=
  digits.foldl (fun n c => n * 10 + (c.toNat - 48)) 0

/-- The parts of a number as they are written. -/
structure Numeral where
  /-- Whether there is a minus sign. -/
  negative : Bool
  /-- The digits before the point. -/
  whole : List Char
  /-- The digits after the point, when there is one. -/
  fraction : Option (List Char)
  /-- The value of the exponent, when there is one. -/
  exponent : Option Int

/-- The number that a numeral writes; `none` when it is beyond all doubles. -/
def Numeral.number? (n : Numeral) : Option Number :=
  let (significand, unread) := takeDigits 0 n.whole
  match n.fraction, n.exponent, unread with
  | none, none, [] =>
    if n.negative then
      if significand = 0 ∨ Nat.pow 2 63 < significand then
        (Double.ofRatio? true significand 1).map .double
      else some (.int (-(significand : Int)))
    else some (.int significand)
  | _, _, _ =>
    let fraction := n.fraction.getD []
    let (significand, dropped) := takeDigits significand fraction
    let exponent : Int :=
      (unread.length : Int) - ((fraction.length : Int) - (dropped.length : Int)) + n.exponent.getD 0
    (Double.scaledDecimal? n.negative significand exponent).map .double

/-- Read the exponent after its `e`. -/
def exponent? (cs : List Char) : Option (Int × List Char) :=
  let (negative, cs) :=
    match cs with
    | '+' :: rest => (false, rest)
    | '-' :: rest => (true, rest)
    | _ => (false, cs)
  let digits := cs.takeWhile Char.isDigit
  let rest := cs.dropWhile Char.isDigit
  if digits.isEmpty then none
  else
    let value : Int := digitsValue digits
    some (if negative then -value else value, rest)

/-- Read a number. -/
def numeral? (cs : List Char) : Option (Numeral × List Char) :=
  let (negative, cs) :=
    match cs with
    | '-' :: rest => (true, rest)
    | _ => (false, cs)
  let whole := cs.takeWhile Char.isDigit
  let rest := cs.dropWhile Char.isDigit
  if whole.isEmpty ∨ (whole.head? = some '0' ∧ 1 < whole.length) then none
  else do
    let (fraction, rest) ←
      match rest with
      | '.' :: after =>
        let digits := after.takeWhile Char.isDigit
        if digits.isEmpty then none else some (some digits, after.dropWhile Char.isDigit)
      | _ => some (none, rest)
    let (exponent, rest) ←
      match rest with
      | c :: after =>
        if c = 'e' ∨ c = 'E' then (exponent? after).map fun (e, rest) => (some e, rest)
        else some (none, rest)
      | [] => some (none, [])
    return (⟨negative, whole, fraction, exponent⟩, rest)

/-! ### Tokens -/

/-- The first token of a text that does not start with a blank, and the rest. -/
def token? : List Char → Option (Token × List Char)
  | '[' :: rest => some (.openArray, rest)
  | ']' :: rest => some (.closeArray, rest)
  | '{' :: rest => some (.openObject, rest)
  | '}' :: rest => some (.closeObject, rest)
  | ',' :: rest => some (.comma, rest)
  | ':' :: rest => some (.colon, rest)
  | 'n' :: 'u' :: 'l' :: 'l' :: rest => some (.scalar .null, rest)
  | 't' :: 'r' :: 'u' :: 'e' :: rest => some (.scalar (.bool true), rest)
  | 'f' :: 'a' :: 'l' :: 's' :: 'e' :: rest => some (.scalar (.bool false), rest)
  | '"' :: rest =>
    (stringBody? [] rest).map fun (body, rest) => (.scalar (.string (String.ofList body)), rest)
  | cs => do
    let (numeral, rest) ← numeral? cs
    let number ← numeral.number?
    return (.scalar (.number number), rest)

/-- Read tokens to the end of the text; `fuel` bounds their number. -/
def tokensUpTo : Nat → List Token → List Char → Option (List Token)
  | 0, _, _ => none
  | fuel + 1, done, cs =>
    match cs.dropWhile isBlank with
    | [] => some done.reverse
    | cs =>
      match token? cs with
      | none => none
      | some (token, rest) => tokensUpTo fuel (token :: done) rest

/-- The tokens of a text. Each token takes at least one character, so there are no
more tokens than characters. -/
def tokens? (text : String) : Option (List Token) :=
  let cs := text.toList
  tokensUpTo (cs.length + 1) [] cs

end Json

end SchemaBundle
