/-
Host names beyond ASCII.

Every character of a name is first mapped to the form in which names are compared:
letters to lower case, characters without meaning dropped, the other full stops to
the plain one.  A label with a character beyond ASCII is then written in Punycode
after `xn--`.  A label that already starts so has to be the Punycode of a label that
the mapping leaves alone.
-/
import SchemaBundle.Text.Lowercase
import SchemaBundle.Text.Pieces
import SchemaBundle.Url.Punycode

namespace SchemaBundle

namespace Idna

/-- Characters that no host name holds. -/
def isForbidden (c : Char) : Bool :=
  c.toNat ≤ 0x20 || c.toNat == 0x7F || c = '#' || c = '/' || c = ':' || c = '<' || c = '>' ||
    c = '?' || c = '@' || c = '[' || c = '\\' || c = ']' || c = '^' || c = '|' || c = '%'

/-- Characters that a name may be written with and that it does not hold. -/
def isIgnored (c : Char) : Bool :=
  let code := c.toNat
  code == 0xAD || code == 0x34F || code == 0x200B || code == 0x2060 || code == 0xFEFF ||
    (0x180B ≤ code && code ≤ 0x180D) || (0xFE00 ≤ code && code ≤ 0xFE0F) ||
    (0xE0100 ≤ code && code ≤ 0xE01EF)

/-- The form in which a character is compared. -/
def mapChar (c : Char) : List Char :=
  let code := c.toNat
  if isIgnored c then []
  else if code == 0x3002 || code == 0xFF0E || code == 0xFF61 then ['.']
  else if 0xFF01 ≤ code && code ≤ 0xFF5E then [(Char.ofNat (code - 0xFEE0)).toLower]
  else if c = 'ẞ' then ['ß']
  else if c = 'ſ' then ['s']
  else if c = 'İ' then ['i', '\u0307']
  else [Text.lowerChar c]

/-- The ASCII form of a mapped label. -/
def labelToAscii? (label : List Char) : Option (List Char) :=
  match Text.dropStart? ['x', 'n', '-', '-'] label with
  | some code =>
    match Punycode.decode? code with
    | none => none
    | some decoded =>
      if decoded.all (·.toNat < 0x80) || decoded.flatMap mapChar != decoded then none
      else some label
  | none =>
    if label.all (·.toNat < 0x80) then some label
    else some ("xn--".toList ++ Punycode.encode label)

/-- The ASCII form of a host name. -/
def toAscii? (name : List Char) : Option (List Char) := do
  let mapped := name.flatMap mapChar
  if mapped.any isForbidden then none
  else
    let labels ← (Text.splitOn '.' mapped).mapM labelToAscii?
    return (Text.joinWith "." (labels.map String.ofList)).toList

end Idna

end SchemaBundle
