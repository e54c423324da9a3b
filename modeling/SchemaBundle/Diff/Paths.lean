/-
Where two values differ.

Members and items are compared with their counterparts.  A member that only one value
has, and a value that cannot be compared part by part, is where the search ends.
-/
import SchemaBundle.Json.Basic
import SchemaBundle.Pointer

namespace SchemaBundle

namespace Diff

/-- A place where two values differ. -/
inductive Difference where
  /-- Both have a value there, and the values differ. -/
  | changed (place : Pointer)
  /-- Only the expected value has a member there. -/
  | missing (place : Pointer)
  /-- Only the actual value has a member there. -/
  | extra (place : Pointer)
  deriving DecidableEq

/-- The text of a difference: its pointer and what kind of difference it is. -/
def Difference.text : Difference → String
  | .changed place => Pointer.format place
  | .missing place => Pointer.format place ++ " (missing in actual)"
  | .extra place => Pointer.format place ++ " (extra in actual)"

mutual

/-- The differences of two values at a place. -/
def differencesAt (place : Pointer) : Json → Json → List Difference
  | .object expected, .object actual => memberDifferences place expected actual
  | .array expected, .array actual =>
    if expected.length = actual.length then itemDifferences place 0 expected actual
    else [.changed place]
  | expected, actual => if expected == actual then [] else [.changed place]

/-- The differences of two lists of members, in the order of the keys. -/
def memberDifferences (place : Pointer) :
    List (String × Json) → List (String × Json) → List Difference
  | [], actual => actual.map fun (key, _) => .extra (place ++ [key])
  | (key, value) :: rest, actual =>
    let before := actual.takeWhile fun entry => entry.1 < key
    let extras := before.map fun (key, _) => Difference.extra (place ++ [key])
    let there := actual.drop before.length
    let here := place ++ [key]
    match there with
    | (other, counterpart) :: after =>
      if other = key then
        extras ++ differencesAt here value counterpart ++ memberDifferences place rest after
      else extras ++ .missing here :: memberDifferences place rest there
    | [] => extras ++ .missing here :: memberDifferences place rest []

/-- The differences of two lists of items of the same length. -/
def itemDifferences (place : Pointer) (index : Nat) : List Json → List Json → List Difference
  | value :: rest, counterpart :: after =>
    differencesAt (place ++ [toString index]) value counterpart ++
      itemDifferences place (index + 1) rest after
  | _, _ => []

end

/-- The differences of two values. -/
def differences (expected actual : Json) : List Difference :=
  differencesAt [] expected actual

end Diff

end SchemaBundle
