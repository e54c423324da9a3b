/-
Names of definitions.

A naming proposes a name for a document; an allocator makes the proposals unique.
The first request for a name gets it as it is, and a later one gets the name with
the smallest number from 2 on that is not in use.
-/
import SchemaBundle.Entries
import SchemaBundle.Error

namespace SchemaBundle

/-- A proposed name for every identity. -/
abbrev Naming := String → String

namespace Naming

/-- The last segment of a path without query, fragment and final slashes. -/
def fileName (identity : String) : List Char :=
  let path := identity.toList.takeWhile fun c => c != '?' && c != '#'
  let trimmed := Text.dropEndWhile (· = '/') path
  (trimmed.reverse.takeWhile (· ≠ '/')).reverse

/-- A file name up to its last dot; a dot in front does not count. -/
def stem (name : List Char) : List Char :=
  match name.reverse.dropWhile (· ≠ '.') with
  | [] => name
  | [_] => name
  | _ :: before => before.reverse

/-- The name of the file, letters and digits only, in lower case. -/
def fileStem : Naming := fun identity =>
  String.ofList (((stem (fileName identity)).filter Char.isAlphanum).map Char.toLower)

/-- The name given to an identity, else the name of its file. -/
def byType (names : List (String × String)) : Naming := fun identity =>
  (Entries.get? names identity).getD (fileStem identity)

/-- The largest number that is tried unless told otherwise. -/
def defaultMaxSuffix : Nat :=
  10000

/-- A name with a number behind it. -/
def numbered (base : String) (n : Nat) : String :=
  base ++ String.ofList (Nat.toDigits 10 n)

end Naming

/-- Hands out names that are not in use. Names never become free again, so it goes on
with the numbers of a name where the last request for it ended. -/
structure NameAllocator where
  /-- The names in use. -/
  taken : List String
  /-- The largest number that is put behind a name. -/
  maxSuffix : Nat
  /-- The number to go on with. -/
  next : String → Nat
  /-- With the numbers before that one, a name is in use. -/
  numbered_mem_taken : ∀ base k, 2 ≤ k → k < next base → Naming.numbered base k ∈ taken

namespace NameAllocator

/-- An allocator with no name in use. -/
def empty (maxSuffix : Nat) : NameAllocator where
  taken := []
  maxSuffix
  next _ := 2
  numbered_mem_taken _ _ low high := absurd low (Nat.not_le.2 high)

/-- Mark a name as used. -/
def reserve (a : NameAllocator) (name : String) : NameAllocator :=
  { a with
    taken := name :: a.taken
    numbered_mem_taken := fun base k low high =>
      List.mem_cons_of_mem name (a.numbered_mem_taken base k low high) }

/-- Mark several names as used. -/
def reserveAll (a : NameAllocator) (names : List String) : NameAllocator :=
  names.foldl reserve a

/-- Whether a name is not in use. -/
def isFree (a : NameAllocator) (name : String) : Bool :=
  !a.taken.contains name

/-- Numbers up to which all with which a name is in use are known. -/
abbrev Reached (a : NameAllocator) (base : String) : Type :=
  { n : Nat // ∀ k, 2 ≤ k → k < n → Naming.numbered base k ∈ a.taken }

/-- The first number, among `count` of them, with which a name is free. -/
def firstFree? (a : NameAllocator) (base : String) : Nat → Reached a base → Option (Reached a base)
  | 0, _ => none
  | count + 1, n =>
    if h : Naming.numbered base n.1 ∈ a.taken then
      firstFree? a base count ⟨n.1 + 1, fun k low high =>
        if eq : k = n.1 then eq ▸ h else n.2 k low (by omega)⟩
    else some n

/-- The first number with which a name is free. -/
def freeNumber? (a : NameAllocator) (base : String) : Option (Reached a base) :=
  let start : Reached a base := ⟨a.next base, a.numbered_mem_taken base⟩
  a.firstFree? base (a.maxSuffix + 1 - start.1) start

/-- Mark a name with a number as used, and go on behind the number. -/
def reserveNumber (a : NameAllocator) (base : String) (n : Reached a base) : NameAllocator :=
  { a with
    taken := Naming.numbered base n.1 :: a.taken
    next := fun other => if other = base then n.1 + 1 else a.next other
    numbered_mem_taken := by
      intro other k low high
      by_cases same : other = base
      · subst same
        rw [if_pos rfl] at high
        by_cases eq : k = n.1
        · exact eq ▸ List.mem_cons_self
        · exact List.mem_cons_of_mem _ (n.2 k low (by omega))
      · rw [if_neg same] at high
        exact List.mem_cons_of_mem _ (a.numbered_mem_taken other k low high) }

/-- Hand out a name for an identity. -/
def allocate (a : NameAllocator) (base identity : String) : Except Error (String × NameAllocator) :=
  if base = "" then .error (.nameCollision base identity)
  else if a.isFree base then .ok (base, a.reserve base)
  else
    match a.freeNumber? base with
    | some n => .ok (Naming.numbered base n.1, a.reserveNumber base n)
    | none => .error (.nameCollision base identity)

end NameAllocator

end SchemaBundle
