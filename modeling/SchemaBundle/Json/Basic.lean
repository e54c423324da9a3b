/-
JSON values.

Numbers are either whole numbers or doubles, and the two are never equal: `1` and
`1.0` are different values.  An object is a list of members; every function here
that builds an object keeps its members in key order, so that equality of objects
does not depend on how they were written.
-/
import SchemaBundle.Decimal.Double
import SchemaBundle.Entries

namespace SchemaBundle

/-- A JSON number. -/
inductive Number where
  /-- A whole number that was written without point or exponent. -/
  | int (value : Int)
  /-- Any other number. -/
  | double (value : Double)
  deriving DecidableEq, Inhabited

/-- Numeric equality within one kind; the two zeros of doubles are equal. -/
def Number.sameValue : Number → Number → Bool
  | .int x, .int y => x == y
  | .double x, .double y => x.sameValue y
  | _, _ => false

/-- A JSON value. -/
inductive Json where
  | null
  | bool (value : Bool)
  | number (value : Number)
  | string (value : String)
  | array (items : List Json)
  | object (members : List (String × Json))
  deriving Inhabited

namespace Json

/-! ### Equality -/

mutual

/-- Equality of values: numbers by value within their kind, objects by their
ordered members. -/
def beq : Json → Json → Bool
  | .null, .null => true
  | .bool x, .bool y => x == y
  | .number x, .number y => x.sameValue y
  | .string x, .string y => x == y
  | .array xs, .array ys => beqItems xs ys
  | .object xs, .object ys => beqMembers xs ys
  | _, _ => false

/-- Equality of item lists. -/
def beqItems : List Json → List Json → Bool
  | [], [] => true
  | x :: xs, y :: ys => beq x y && beqItems xs ys
  | _, _ => false

/-- Equality of member lists. -/
def beqMembers : List (String × Json) → List (String × Json) → Bool
  | [], [] => true
  | (k, x) :: xs, (l, y) :: ys => k == l && beq x y && beqMembers xs ys
  | _, _ => false

end

instance : BEq Json := ⟨beq⟩

/-! ### Shape -/

/-- Whether the value is an object. -/
def isObject : Json → Bool
  | .object _ => true
  | _ => false

/-- Whether the value is null. -/
def isNull : Json → Bool
  | .null => true
  | _ => false

/-- The members of an object. -/
def members? : Json → Option (List (String × Json))
  | .object members => some members
  | _ => none

/-- The member of an object with a key; no other value has members. -/
def get? (value : Json) (key : String) : Option Json :=
  value.members?.bind fun members => Entries.get? members key

/-- The text of a string. -/
def string? : Json → Option String
  | .string s => some s
  | _ => none

/-- The truth value of a boolean. -/
def bool? : Json → Option Bool
  | .bool b => some b
  | _ => none

/-- The items of an array. -/
def items? : Json → Option (List Json)
  | .array items => some items
  | _ => none

/-- A whole number. -/
def ofNat (n : Nat) : Json :=
  .number (.int n)

/-- The whole number that a value is, when it is one and not negative. -/
def nat? : Json → Option Nat
  | .number (.int n) => if 0 ≤ n then some n.toNat else none
  | _ => none

/-- The object with the given members, in key order. -/
def ofMembers (members : List (String × Json)) : Json :=
  .object (Entries.ofPairs members)

/-- An array of strings. -/
def ofStrings (strings : List String) : Json :=
  .array (strings.map .string)

/-! ### Key order -/

mutual

/-- Sort the members of every object in the tree by key. -/
def sortKeys : Json → Json
  | .array items => .array (sortItems items)
  | .object members => .object (Entries.ofPairs (sortMembers members))
  | value => value

/-- Sort inside every item. -/
def sortItems : List Json → List Json
  | [] => []
  | item :: rest => item.sortKeys :: sortItems rest

/-- Sort inside every member's value, leaving the members where they are. -/
def sortMembers : List (String × Json) → List (String × Json)
  | [] => []
  | (key, value) :: rest => (key, value.sortKeys) :: sortMembers rest

end

/-- Whether the keys of a member list do not decrease. -/
def keysInOrder (members : List (String × Json)) : Bool :=
  let keys := Entries.keys members
  (keys.zip (keys.drop 1)).all fun (previous, next) => previous ≤ next

end Json

end SchemaBundle
