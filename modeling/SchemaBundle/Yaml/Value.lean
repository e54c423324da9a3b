/-
Values of a YAML document.

A plain scalar is null, a truth value, a number or, failing these, text; a tag can
ask for one of them.  Aliases are replaced by what they stand for, to a limited
depth and a limited number of times.  A mapping may not hold one key twice.  As JSON,
keys that are scalars become texts, and a value with a tag of its own becomes an
object with that tag as its only key.
-/
import SchemaBundle.Json.Writer
import SchemaBundle.Yaml.Node

namespace SchemaBundle

namespace Yaml

/-! ### Plain scalars -/

/-- A number of a document. -/
inductive Numeric where
  /-- A whole number that fits 64 bits, signed or unsigned. -/
  | int (value : Int)
  /-- A double. -/
  | double (value : Double)
  /-- An infinity or no number. -/
  | notFinite (name : String)
  deriving DecidableEq, Inhabited

/-- What a whole number in a scalar is. -/
inductive Whole where
  /-- It fits 64 bits. -/
  | fits (value : Int)
  /-- It fits 128 bits only. -/
  | tooLarge

/-- The number that digits write in a base. -/
def digitsIn? (base : Nat) (digits : List Char) : Option Nat :=
  if digits.isEmpty then none
  else
    digits.foldlM (fun n c =>
      (Json.hexDigit? c).bind fun d => if d < base then some (n * base + d) else none) 0

/-- The base that a text announces by its first two characters, and the digits. -/
def announcedBase? : List Char → Option (Nat × List Char)
  | '0' :: 'x' :: rest => some (16, rest)
  | '0' :: 'o' :: rest => some (8, rest)
  | '0' :: 'b' :: rest => some (2, rest)
  | _ => none

/-- Digits that start with a needless zero. -/
def isZeroPadded (text : List Char) : Bool :=
  let digits := match text with
    | '-' :: rest => rest
    | '+' :: rest => rest
    | _ => text
  1 < digits.length && digits.head? = some '0' && digits.all Char.isDigit

/-- The magnitude that a text without sign writes, below the given bound. -/
def magnitude? (bound : Nat) (text : List Char) : Option Nat :=
  let below (n : Option Nat) : Option Nat := n.filter (· < bound)
  let based := (announcedBase? text).bind fun (base, digits) => below (digitsIn? base digits)
  based.or (if isZeroPadded text then none else below (digitsIn? 10 text))

/-- The whole number that a plain scalar writes: without sign or with a plus in
unsigned range, with a minus in signed range. -/
def whole? (text : List Char) : Option Whole :=
  match text with
  | '-' :: rest =>
    match magnitude? (Nat.pow 2 63 + 1) rest with
    | some n => some (.fits (-(n : Int)))
    | none => (magnitude? (Nat.pow 2 127 + 1) rest).map fun _ => .tooLarge
  | _ =>
    let rest := if text.head? = some '+' then text.drop 1 else text
    match magnitude? (Nat.pow 2 64) rest with
    | some n => some (.fits n)
    | none => (magnitude? (Nat.pow 2 128) rest).map fun _ => .tooLarge

/-- The finite double that a text with digits, a point and an exponent writes. -/
def finite? (text : List Char) : Option Double :=
  let (negative, cs) := match text with
    | '-' :: rest => (true, rest)
    | '+' :: rest => (false, rest)
    | _ => (false, text)
  let whole := cs.takeWhile Char.isDigit
  let cs := cs.dropWhile Char.isDigit
  let (fraction, cs) := match cs with
    | '.' :: rest => (rest.takeWhile Char.isDigit, rest.dropWhile Char.isDigit)
    | _ => ([], cs)
  let exponent? : Option Int := match cs with
    | [] => some 0
    | c :: rest =>
      if c = 'e' ∨ c = 'E' then
        (Json.exponent? rest).bind fun (e, rest) => if rest.isEmpty then some e else none
      else none
  if whole.isEmpty && fraction.isEmpty then none
  else
    exponent?.bind fun exponent =>
      Double.exactDecimal? negative (Json.digitsValue (whole ++ fraction))
        (exponent - (fraction.length : Int))

/-- The number with point, exponent or name that a plain scalar writes. -/
def floating? (text : List Char) : Option Numeric :=
  let unsigned := if text.head? = some '+' then text.drop 1 else text
  let twice := text.head? = some '+' && (unsigned.head? = some '+' || unsigned.head? = some '-')
  if twice then none
  else if [".inf", ".Inf", ".INF"].contains (String.ofList unsigned) then some (.notFinite "inf")
  else if ["-.inf", "-.Inf", "-.INF"].contains (String.ofList text) then some (.notFinite "-inf")
  else if [".nan", ".NaN", ".NAN"].contains (String.ofList text) then some (.notFinite "nan")
  else (finite? unsigned).map .double

/-- Whether a text writes null. -/
def isNullText (text : String) : Bool :=
  ["null", "Null", "NULL", "~"].contains text

/-- The truth value that a text writes. -/
def truth? (text : String) : Option Bool :=
  if ["true", "True", "TRUE"].contains text then some true
  else if ["false", "False", "FALSE"].contains text then some false
  else none

/-- What a plain scalar is. -/
inductive Plain where
  | null
  | bool (value : Bool)
  | number (value : Numeric)
  /-- A whole number that does not fit 64 bits. -/
  | tooLarge
  /-- Text. -/
  | text

/-- Read a plain scalar. -/
def readPlain (text : String) : Plain :=
  let cs := text.toList
  if cs.isEmpty || isNullText text then .null
  else
    match truth? text with
    | some b => .bool b
    | none =>
      match whole? cs with
      | some (.fits n) => .number (.int n)
      | some .tooLarge => .tooLarge
      | none => if isZeroPadded cs then .text else ((floating? cs).map Plain.number).getD .text

/-! ### Values -/

/-- A value of a document. -/
inductive Value where
  | null
  | bool (value : Bool)
  | number (value : Numeric)
  | string (text : String)
  | sequence (items : List Value)
  | mapping (entries : List (Value × Value))
  /-- A value with a tag of its own. -/
  | tagged (tag : String) (value : Value)
  deriving Inhabited

/-- Whether two numbers are equal: the two zeros are. -/
def Numeric.sameValue : Numeric → Numeric → Bool
  | .int x, .int y => x == y
  | .double x, .double y => x.sameValue y
  | .notFinite x, .notFinite y => x == y
  | _, _ => false

namespace Value

mutual

/-- Whether two values are equal; the order of a mapping does not count. -/
def same : Value → Value → Bool
  | .null, .null => true
  | .bool x, .bool y => x == y
  | .number x, .number y => x.sameValue y
  | .string x, .string y => x == y
  | .sequence xs, .sequence ys => sameItems xs ys
  | .mapping xs, .mapping ys => xs.length == ys.length && allFound xs ys
  | .tagged s x, .tagged t y => s == t && same x y
  | _, _ => false

/-- Whether two lists hold equal values. -/
def sameItems : List Value → List Value → Bool
  | [], [] => true
  | x :: xs, y :: ys => same x y && sameItems xs ys
  | _, _ => false

/-- Whether all entries are found among others. -/
def allFound : List (Value × Value) → List (Value × Value) → Bool
  | [], _ => true
  | (k, v) :: rest, ys => ys.any (fun (l, w) => same k l && same v w) && allFound rest ys

end

end Value

/-- Whether a list holds two equal values. -/
def hasRepeated : List Value → Bool
  | [] => false
  | v :: rest => rest.any v.same || hasRepeated rest

/-! ### From nodes to values -/

/-- The value of a scalar with a tag of the language, or without a tag. -/
def scalarValue? (tag : Option String) (text : String) (plain : Bool) : Option Value :=
  let untagged : Option Value :=
    if plain then
      match readPlain text with
      | .null => some .null
      | .bool b => some (.bool b)
      | .number n => some (.number n)
      | .tooLarge => none
      | .text => some (.string text)
    else some (.string text)
  match tag with
  | none => untagged
  | some tag =>
    if tag = "tag:yaml.org,2002:bool" then (truth? text).map .bool
    else if tag = "tag:yaml.org,2002:int" then
      match whole? text.toList with
      | some (.fits n) => some (.number (.int n))
      | _ => none
    else if tag = "tag:yaml.org,2002:float" then (floating? text.toList).map .number
    else if tag = "tag:yaml.org,2002:null" then (if isNullText text then some .null else none)
    else some (.string text)

/-- The name of a tag of its own: it starts with an exclamation mark. -/
def ownTag? (tag : Option String) : Option String :=
  tag.filter fun t => t.toList.head? = some '!'

/-- A tag of its own as the key of an object. -/
def tagKey (tag : String) : String :=
  match tag.toList with
  | ['!'] => "!!"
  | _ => tag

/-- The deepest nesting of sequences and mappings. -/
def maxDepth : Nat :=
  128

/-- Steps that replace aliases: the state is how many more may be replaced. -/
abbrev Expanding := StateT Nat Option

namespace Document

/-- Count the replacement of an alias. -/
def countAlias : Expanding Unit := fun left =>
  match left with
  | 0 => none
  | left + 1 => some ((), left)

/-- Replace a node that is an alias by what it stands for. -/
def target (d : Document) (n : Node) : Expanding Node := do
  match n with
  | .alias number =>
    countAlias
    match d.anchor? number with
    | some n => return n
    | none => fun _ => none
  | n => return n

/-- The value of a node, with at most `depth` levels of sequences and mappings. -/
def value (d : Document) (depth : Nat) (n : Node) : Expanding Value := do
  let tagged (tag : Option String) (value : Value) : Value :=
    match ownTag? tag with
    | some own => .tagged (tagKey own) value
    | none => value
  match ← d.target n, depth with
  | .alias _, _ => fun _ => none
  | .scalar tag text plain, _ => fun left =>
    let tagHere := if (ownTag? tag).isSome then none else tag
    (scalarValue? tagHere text plain).map fun v => (tagged tag v, left)
  | .sequence _ _, 0 => fun _ => none
  | .sequence tag items, depth + 1 =>
    return tagged tag (.sequence (← items.mapM (value d depth)))
  | .mapping _ _, 0 => fun _ => none
  | .mapping tag entries, depth + 1 =>
    let entries ← entries.mapM fun (k, v) => do return (← value d depth k, ← value d depth v)
    if hasRepeated (entries.map Prod.fst) then fun _ => none
    else return tagged tag (.mapping entries)

end Document

/-- The value of a text; a text without document is null. -/
def value? (text : String) : Option Value := do
  let d ← document? text
  match d.root with
  | none => return .null
  | some root =>
    let (value, _) ← (d.value maxDepth root).run (100 * d.events)
    return value

/-! ### As JSON -/

/-- The text of a key; only scalars other than null have one. -/
def keyText? : Value → Option String
  | .string s => some s
  | .bool true => some "true"
  | .bool false => some "false"
  | .number (.int n) => some (String.ofList (Json.numberChars (.int n)))
  | .number (.double x) => some (String.ofList (Json.numberChars (.double x)))
  | _ => none

namespace Value

mutual

/-- The value as JSON, unless a key has no text. -/
def toJson? : Value → Option Json
  | .null => some .null
  | .bool b => some (.bool b)
  | .number (.int n) => some (.number (.int n))
  | .number (.double x) => some (.number (.double x))
  | .number (.notFinite _) => some .null
  | .string s => some (.string s)
  | .sequence items => (itemsToJson? items).map .array
  | .mapping entries => (entriesToJson? entries).map Json.ofMembers
  | .tagged tag value => (toJson? value).map fun v => Json.ofMembers [(tag, v)]

/-- Items as JSON. -/
def itemsToJson? : List Value → Option (List Json)
  | [] => some []
  | item :: rest => do return (← toJson? item) :: (← itemsToJson? rest)

/-- Entries as members. -/
def entriesToJson? : List (Value × Value) → Option (List (String × Json))
  | [] => some []
  | (key, value) :: rest => do
    let key ← keyText? key
    let value ← toJson? value
    return (key, value) :: (← entriesToJson? rest)

end

end Value

end Yaml

end SchemaBundle
