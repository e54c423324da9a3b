/-
Association lists kept in key order.

A list of `(key, value)` pairs whose keys strictly increase by code point is the
normal form of a finite map: two maps with the same content are the same list, and
walking the list is walking the map in key order.  `insert` and `erase` keep the
order; `ofPairs` sorts any list, the last of several equal keys winning.
-/

namespace SchemaBundle

namespace Entries

variable {α : Type} {β : Type}

/-- Keys strictly increase. -/
def Sorted (entries : List (String × α)) : Prop :=
  entries.Pairwise fun x y => x.1 < y.1

/-- The value of a key. -/
def get? : List (String × α) → String → Option α
  | [], _ => none
  | (k, v) :: rest, key => if k = key then some v else get? rest key

/-- Whether a key is present. -/
def contains (entries : List (String × α)) (key : String) : Bool :=
  (get? entries key).isSome

/-- Set the value of a key, keeping the order. -/
def insert (key : String) (value : α) : List (String × α) → List (String × α)
  | [] => [(key, value)]
  | (k, v) :: rest =>
    if k = key then (key, value) :: rest
    else if key < k then (key, value) :: (k, v) :: rest
    else (k, v) :: insert key value rest

/-- Remove a key. -/
def erase : List (String × α) → String → List (String × α)
  | [], _ => []
  | (k, v) :: rest, key => if k = key then rest else (k, v) :: erase rest key

/-- The keys, in order. -/
def keys (entries : List (String × α)) : List String :=
  entries.map Prod.fst

/-- Set every entry of `additions`, later ones winning. -/
def insertAll (entries additions : List (String × α)) : List (String × α) :=
  additions.foldl (fun acc entry => insert entry.1 entry.2 acc) entries

/-- The map with the given pairs, the last of several equal keys winning. -/
def ofPairs (pairs : List (String × α)) : List (String × α) :=
  insertAll [] pairs

/-- Apply a function to every value. -/
def mapValues (f : α → β) (entries : List (String × α)) : List (String × β) :=
  entries.map fun entry => (entry.1, f entry.2)

end Entries

end SchemaBundle
