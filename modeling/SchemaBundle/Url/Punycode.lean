/-
Punycode: labels beyond ASCII in ASCII letters, digits and hyphens.

The characters beyond ASCII follow in increasing order, each as the distance that a
counter over (character, position) has to move, written in digits of base 36 whose
end is marked by their size against a sliding threshold.  All numbers are natural
numbers; a code that leaves the range of characters is refused on decoding.
-/

namespace SchemaBundle

namespace Punycode

/-- The threshold of the digit at a position, given in multiples of the base. -/
def threshold (position bias : Nat) : Nat :=
  if position ≤ bias then 1 else if bias + 26 ≤ position then 26 else position - bias

theorem threshold_bounds (position bias : Nat) :
    1 ≤ threshold position bias ∧ threshold position bias ≤ 26 := by
  unfold threshold; split <;> (try split) <;> omega

/-- Bring a distance into the range of the threshold formula. -/
def scaleDistance (distance steps : Nat) : Nat × Nat :=
  if 455 < distance then scaleDistance (distance / 35) (steps + 36) else (distance, steps)
termination_by distance
decreasing_by omega

/-- The bias after a distance has been written, for the given number of characters. -/
def adapt (distance count : Nat) (first : Bool) : Nat :=
  let damped := if first then distance / 700 else distance / 2
  let (rest, steps) := scaleDistance (damped + damped / count) 0
  steps + 36 * rest / (rest + 38)

/-- The digit with a value below 36. -/
def digit (value : Nat) : Char :=
  if value < 26 then Char.ofNat (97 + value) else Char.ofNat (22 + value)

/-- The value of a digit. -/
def digitValue? (c : Char) : Option Nat :=
  if 'a' ≤ c ∧ c ≤ 'z' then some (c.toNat - 97)
  else if 'A' ≤ c ∧ c ≤ 'Z' then some (c.toNat - 65)
  else if '0' ≤ c ∧ c ≤ '9' then some (c.toNat - 22)
  else none

/-! ### Encoding -/

/-- A distance in digits of sliding size. -/
def encodeDistance (bias position distance : Nat) : List Char :=
  let t := threshold position bias
  if distance < t then [digit distance]
  else
    digit (t + (distance - t) % (36 - t)) ::
      encodeDistance bias (position + 36) ((distance - t) / (36 - t))
termination_by distance
decreasing_by
  have h := threshold_bounds position bias
  exact Nat.lt_of_le_of_lt (Nat.div_le_self _ _) (by omega)

/-- The encoder between two characters. -/
structure Encoder where
  /-- The text written, reversed. -/
  written : List Char
  /-- The distance collected so far. -/
  distance : Nat
  /-- The current bias. -/
  bias : Nat
  /-- How many characters the written text stands for. -/
  handled : Nat

/-- Pass over one character of the label while writing the occurrences of `code`. -/
def Encoder.visit (basic code : Nat) (e : Encoder) (c : Char) : Encoder :=
  if c.toNat < code then { e with distance := e.distance + 1 }
  else if c.toNat = code then
    ⟨(encodeDistance e.bias 36 e.distance).reverse ++ e.written, 0,
      adapt e.distance (e.handled + 1) (e.handled == basic), e.handled + 1⟩
  else e

/-- Write the occurrences of each code in increasing order, from `next` on. -/
def Encoder.run (label : List Char) (basic : Nat) : List Nat → Nat → Encoder → Encoder
  | [], _, e => e
  | code :: codes, next, e =>
    let start := { e with distance := e.distance + (code - next) * (e.handled + 1) }
    let passed := label.foldl (visit basic code) start
    run label basic codes (code + 1) { passed with distance := passed.distance + 1 }

/-- The codes beyond ASCII of a label, increasing and without repetition. -/
def extendedCodes (label : List Char) : List Nat :=
  let codes := (label.map Char.toNat).filter (0x80 ≤ ·)
  (codes.mergeSort (· ≤ ·)).eraseDups

/-- The encoded form of a label. -/
def encode (label : List Char) : List Char :=
  let basic := label.filter fun c => c.toNat < 0x80
  let start : Encoder := ⟨[], 0, 72, basic.length⟩
  let written := (start.run label basic.length (extendedCodes label) 0x80).written.reverse
  basic ++ (if basic.isEmpty then [] else ['-']) ++ written

/-! ### Decoding -/

/-- Read one distance: the digits are taken until one is below its threshold. -/
def decodeDistance? (bias position weight sum : Nat) : List Char → Option (Nat × List Char)
  | [] => none
  | c :: rest =>
    match digitValue? c with
    | none => none
    | some value =>
      let sum := sum + value * weight
      let t := threshold position bias
      if value < t then some (sum, rest)
      else decodeDistance? bias (position + 36) (weight * (36 - t)) sum rest

/-- Insert a character at a position. -/
def insertAt (c : Char) (index : Nat) (cs : List Char) : List Char :=
  cs.take index ++ c :: cs.drop index

/-- The decoder between two distances. -/
structure Decoder where
  /-- The characters read so far, in place. -/
  label : List Char
  /-- Where the counter stands within one round over the positions. -/
  position : Nat
  /-- The code of the current round. -/
  code : Nat
  /-- The current bias. -/
  bias : Nat

/-- The decoder after a distance; `none` when the code is not a character. -/
def Decoder.advance? (d : Decoder) (distance : Nat) : Option Decoder :=
  let total := d.label.length + 1
  let counter := d.position + distance
  let code := d.code + counter / total
  if 0x10FFFF < code ∨ (0xD800 ≤ code ∧ code ≤ 0xDFFF) then none
  else
    let index := counter % total
    some ⟨insertAt (Char.ofNat code) index d.label, index + 1, code,
      adapt distance total (d.position == 0)⟩

/-- Read distances to the end; `fuel` bounds their number. -/
def Decoder.run? : Nat → Decoder → List Char → Option (List Char)
  | _, d, [] => some d.label
  | 0, _, _ :: _ => none
  | fuel + 1, d, digits =>
    match decodeDistance? d.bias 36 1 0 digits with
    | none => none
    | some (distance, rest) => (d.advance? distance).bind fun d => run? fuel d rest

/-- The label that an encoded form stands for. The part before the last hyphen is
taken as it is; each distance takes at least one of the other characters. -/
def decode? (code : List Char) : Option (List Char) :=
  let reversed := code.reverse
  let digits := (reversed.takeWhile (· ≠ '-')).reverse
  let basic := ((reversed.dropWhile (· ≠ '-')).drop 1).reverse
  let start : Decoder := ⟨basic, 0, 0x80, 72⟩
  start.run? digits.length digits

end Punycode

end SchemaBundle
