/-
Hosts of urls.

In a special scheme a host is a domain, an IPv4 address when its last label is a
number, or an IPv6 address in brackets; other schemes take any text without
delimiters, or an IPv6 address in brackets.  The result is the text of the host in
its one normal form.
-/
import SchemaBundle.Url.Idna
import SchemaBundle.Url.Percent

namespace SchemaBundle

namespace Host

/-! ### IPv4 -/

/-- A part of an address as a number. -/
inductive Part where
  /-- The number. -/
  | value (n : Nat)
  /-- A number that does not fit 32 bits. -/
  | tooLarge
  /-- No number. -/
  | notANumber

/-- The number that digits write in a base; `none` if one is not a digit of it. -/
def digitsIn? (base : Nat) (digits : List Char) : Option Nat :=
  digits.foldlM (fun n c =>
    (Url.hexValue? c).bind fun v => if v < base then some (n * base + v) else none) 0

/-- Read a part: hexadecimal after `0x`, octal after `0`, else decimal. -/
def part (cs : List Char) : Part :=
  let (base, digits) :=
    match cs with
    | '0' :: 'x' :: rest => (16, rest)
    | '0' :: 'X' :: rest => (16, rest)
    | '0' :: c :: rest => (8, c :: rest)
    | _ => (10, cs)
  if cs.isEmpty then .notANumber
  else
    match digitsIn? base digits with
    | none => .notANumber
    | some n => if n < Nat.pow 2 32 then .value n else .tooLarge

/-- Whether a domain has to be read as an IPv4 address: its last label, the one
before a final dot, is made of digits or is a number. -/
def endsInNumber (domain : List Char) : Bool :=
  let reversed := (Text.splitOn '.' domain).reverse
  let last? :=
    match reversed with
    | [] :: label :: _ => some label
    | [[]] => none
    | label :: _ => some label
    | [] => none
  match last? with
  | none => false
  | some last =>
    (!last.isEmpty && last.all Char.isDigit) ||
      match part last with
      | .notANumber => false
      | _ => true

/-- The 32-bit address that a domain writes. -/
def ipv4? (domain : List Char) : Option Nat := do
  let labels := Text.splitOn '.' domain
  let labels := if labels.getLast? = some [] then labels.dropLast else labels
  if labels.isEmpty || 4 < labels.length then none
  else
    let numbers ← labels.mapM fun label =>
      match part label with
      | .value n => some n
      | _ => none
    let leading := numbers.dropLast
    let last ← numbers.getLast?
    if leading.any (255 < ·) || Nat.pow 256 (4 - leading.length) ≤ last then none
    else return leading.zipIdx.foldr (fun (n, i) sum => n * Nat.pow 256 (3 - i) + sum) last

/-- An address in dotted form. -/
def ipv4Chars (address : Nat) : List Char :=
  let byte i := Nat.toDigits 10 (address / Nat.pow 256 i % 256)
  byte 3 ++ '.' :: byte 2 ++ '.' :: byte 1 ++ '.' :: byte 0

/-! ### IPv6 -/

/-- The pieces read so far, and where the run of zeros stands. -/
structure Pieces where
  /-- The 16-bit pieces, reversed. -/
  read : List Nat
  /-- How many pieces came before `::`. -/
  gap : Option Nat

/-- How many of the eight places are filled; the gap takes at least one. -/
def Pieces.filled (pieces : Pieces) : Nat :=
  pieces.read.length + (if pieces.gap.isSome then 1 else 0)

/-- The value of up to four hexadecimal digits, and the rest. -/
def hexPiece (cs : List Char) : List Char × List Char :=
  let digits := (cs.take 4).takeWhile fun c => (Url.hexValue? c).isSome
  (digits, cs.drop digits.length)

/-- A decimal number of an embedded IPv4 address: at most 255, no leading zero. -/
def byte? (cs : List Char) : Option (Nat × List Char) :=
  let digits := cs.takeWhile Char.isDigit
  let value := digits.foldl (fun n c => n * 10 + (c.toNat - 48)) 0
  if digits.isEmpty || (digits.head? = some '0' && 1 < digits.length) || 255 < value then none
  else some (value, cs.dropWhile Char.isDigit)

/-- The two pieces that an IPv4 address at the end of the text writes. -/
def embedded? (cs : List Char) : Option (Nat × Nat) := do
  let (a, cs) ← byte? cs
  let cs ← Text.dropStart? ['.'] cs
  let (b, cs) ← byte? cs
  let cs ← Text.dropStart? ['.'] cs
  let (c, cs) ← byte? cs
  let cs ← Text.dropStart? ['.'] cs
  let (d, cs) ← byte? cs
  if cs.isEmpty then some (a * 256 + b, c * 256 + d) else none

/-- Read pieces to the end of the text; `fuel` bounds their number. -/
def piecesUpTo : Nat → Pieces → List Char → Option Pieces
  | _, pieces, [] => some pieces
  | 0, _, _ :: _ => none
  | fuel + 1, pieces, cs =>
    if 8 ≤ pieces.filled then none
    else
      match cs with
      | ':' :: rest =>
        if pieces.gap.isSome then none
        else piecesUpTo fuel { pieces with gap := some pieces.read.length } rest
      | _ =>
        let (digits, rest) := hexPiece cs
        let value := digits.foldl (fun n c => n * 16 + (Url.hexValue? c).getD 0) 0
        match rest with
        | '.' :: _ =>
          if digits.isEmpty || 6 < pieces.filled then none
          else
            (embedded? cs).map fun (high, low) =>
              { pieces with read := low :: high :: pieces.read }
        | ':' :: after =>
          if after.isEmpty then none
          else piecesUpTo fuel { pieces with read := value :: pieces.read } after
        | [] => some { pieces with read := value :: pieces.read }
        | _ => none

/-- The eight pieces of an address. -/
def ipv6? (cs : List Char) : Option (List Nat) := do
  let (start, cs) ←
    match cs with
    | ':' :: ':' :: rest => some ((⟨[], some 0⟩ : Pieces), rest)
    | ':' :: _ => none
    | _ => some (⟨[], none⟩, cs)
  let pieces ← piecesUpTo 20 start cs
  let read := pieces.read.reverse
  match pieces.gap with
  | some before =>
    some (read.take before ++ List.replicate (8 - read.length) 0 ++ read.drop before)
  | none => if read.length = 8 then some read else none

/-- The length of the run of zeros that a list starts with. -/
def zerosAtStart (pieces : List Nat) : Nat :=
  (pieces.takeWhile (· == 0)).length

/-- Start and length of the first longest run of at least two zeros. -/
def longestZeros (pieces : List Nat) : Option (Nat × Nat) :=
  let runs := (List.range pieces.length).map fun i => (i, zerosAtStart (pieces.drop i))
  runs.foldl (fun best run =>
    if run.2 < 2 then best
    else
      match best with
      | some (_, length) => if length < run.2 then some run else best
      | none => some run) none

/-- Pieces in hexadecimal, separated by colons. -/
def hexPieces (pieces : List Nat) : List Char :=
  (Text.joinWith ":" (pieces.map fun n => String.ofList (Nat.toDigits 16 n))).toList

/-- An address in its shortest form, in brackets. -/
def ipv6Chars (pieces : List Nat) : List Char :=
  let body :=
    match longestZeros pieces with
    | none => hexPieces pieces
    | some (start, length) =>
      hexPieces (pieces.take start) ++ ':' :: ':' :: hexPieces (pieces.drop (start + length))
  '[' :: body ++ [']']

/-- The address between brackets, when the text is one. -/
def bracketed? (cs : List Char) : Option (List Char) :=
  match cs with
  | '[' :: rest =>
    if rest.getLast? = some ']' then (ipv6? rest.dropLast).map ipv6Chars else none
  | _ => none

/-! ### Hosts -/

/-- The host of a special scheme. -/
def ofSpecial? (cs : List Char) : Option (List Char) :=
  if cs.head? = some '[' then bracketed? cs
  else do
    let decoded ← Url.decode? cs
    let domain ← Idna.toAscii? decoded
    if domain.isEmpty then none
    else if endsInNumber domain then (ipv4? domain).map ipv4Chars
    else some domain

/-- Characters that delimit a host. -/
def isDelimiter (c : Char) : Bool :=
  c.toNat == 0 || c = '\t' || c = '\n' || c = '\r' || c = ' ' || c = '#' || c = '/' || c = ':' ||
    c = '<' || c = '>' || c = '?' || c = '@' || c = '[' || c = '\\' || c = ']' || c = '^' || c = '|'

/-- The host of any other scheme. -/
def ofOther? (cs : List Char) : Option (List Char) :=
  if cs.head? = some '[' then bracketed? cs
  else if cs.any isDelimiter then none
  else some (Url.encode Url.isControl cs)

end Host

end SchemaBundle
