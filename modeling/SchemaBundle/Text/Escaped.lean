/-
Texts in quotes with escapes.

What would end the quoted text or would not show is written as an escape: the usual
letters for a few controls, and the code in braces for the rest.
-/
import SchemaBundle.Text.HiddenData
import SchemaBundle.Text.Lowercase

namespace SchemaBundle

namespace Text

/-- Whether a character shows by itself. -/
def isVisible (c : Char) : Bool :=
  if c.toNat < 0x80 then 0x20 ≤ c.toNat && c.toNat ≠ 0x7F else !inRanges hidden c.toNat

/-- A character in a quoted text. -/
def escapedChar (c : Char) : List Char :=
  match c with
  | '\x00' => ['\\', '0']
  | '\t' => ['\\', 't']
  | '\r' => ['\\', 'r']
  | '\n' => ['\\', 'n']
  | '\\' => ['\\', '\\']
  | '"' => ['\\', '"']
  | c =>
    if isVisible c then [c] else ['\\', 'u', '\x7b'] ++ Nat.toDigits 16 c.toNat ++ ['\x7d']

/-- A text in quotes with escapes. -/
def escaped (s : String) : String :=
  "\"" ++ String.ofList (s.toList.flatMap escapedChar) ++ "\""

end Text

end SchemaBundle
