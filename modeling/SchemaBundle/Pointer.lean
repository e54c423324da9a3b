/-
JSON pointers.

A pointer is a list of segments.  In text each segment follows a `/`, with `~`
written `~0` and `/` written `~1`; the empty list is the empty text.  `format` and
`parse` are inverse to each other on the texts that `parse` accepts.
-/
import SchemaBundle.Json.Basic
import SchemaBundle.Text.Pieces

namespace SchemaBundle

/-- The unescaped segments on the way to a value. -/
abbrev Pointer := List String

namespace Pointer

/-- Why a text is not a pointer. -/
inductive Malformed where
  /-- The text is not empty and does not start with `/`. -/
  | noLeadingSlash
  /-- A `~` is not followed by `0` or `1`. -/
  | badEscape (segment : String)
  deriving DecidableEq

/-- The wording of the reason. -/
def Malformed.message : Malformed → String
  | .noLeadingSlash => "JSON pointer must start with '/' or be empty"
  | .badEscape segment => "invalid escape sequence in pointer segment '" ++ segment ++ "'"

/-! ### Escaping -/

/-- How one character stands in an escaped segment. -/
def escapeChar (c : Char) : List Char :=
  if c = '~' then ['~', '0'] else if c = '/' then ['~', '1'] else [c]

/-- A segment in escaped form. -/
def escape (segment : String) : String :=
  String.ofList (segment.toList.flatMap escapeChar)

/-- Undo the escapes; `none` when a `~` stands alone. -/
def unescapeChars? : List Char → Option (List Char)
  | [] => some []
  | '~' :: '0' :: rest => (unescapeChars? rest).map ('~' :: ·)
  | '~' :: '1' :: rest => (unescapeChars? rest).map ('/' :: ·)
  | c :: rest => if c = '~' then none else (unescapeChars? rest).map (c :: ·)

/-- The segment that an escaped form stands for. -/
def unescape (segment : String) : Except Malformed String :=
  match unescapeChars? segment.toList with
  | some cs => .ok (String.ofList cs)
  | none => .error (.badEscape segment)

/-! ### Text -/

/-- The text of a pointer. -/
def format (pointer : Pointer) : String :=
  String.join (pointer.map fun segment => "/" ++ escape segment)

/-- The pointer that a text stands for. -/
def parse (text : String) : Except Malformed Pointer :=
  match text.toList with
  | [] => .ok []
  | '/' :: rest => (Text.splitOn '/' rest).mapM fun piece => unescape (String.ofList piece)
  | _ => .error .noLeadingSlash

/-! ### Following a pointer -/

/-- The position that a segment names in an array: digits with an optional `+`, at
most the largest 64-bit number. -/
def arrayIndex? (segment : String) : Option Nat :=
  let digits :=
    match segment.toList with
    | '+' :: rest => rest
    | cs => cs
  if digits.isEmpty || !digits.all Char.isDigit then none
  else
    let value := digits.foldl (fun n c => n * 10 + (c.toNat - 48)) 0
    if value < Nat.pow 2 64 then some value else none

/-- One step: a member of an object or an item of an array. -/
def step? (value : Json) (segment : String) : Option Json :=
  match value with
  | .object members => Entries.get? members segment
  | .array items => (arrayIndex? segment).bind fun index => items[index]?
  | _ => none

/-- The value that a pointer leads to. -/
def resolve? : Json → Pointer → Option Json
  | value, [] => some value
  | value, segment :: rest => (step? value segment).bind fun next => resolve? next rest

/-- Whether a pointer starts with the given segments. -/
def startsWith (pointer start : Pointer) : Bool :=
  start.isPrefixOf pointer

end Pointer

end SchemaBundle
