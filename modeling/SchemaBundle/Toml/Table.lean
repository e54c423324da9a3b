/-
Tables of a TOML text.

A table is opened by a header, by a header below it, by a dotted key, or as a value in
braces, and how it was opened decides who may add to it: a header may name a table
once, a dotted key may add only to tables of dotted keys, and a value is complete.
-/
import SchemaBundle.Settings.Basic

namespace SchemaBundle

namespace Toml

/-- How a table was opened. -/
inductive Opening where
  /-- By a header of its own, or by being the whole document. -/
  | header
  /-- By the header of a table below it. -/
  | passing
  /-- By a dotted key. -/
  | dotted
  /-- As a value in braces. -/
  | braces
  deriving DecidableEq

/-- What a key holds. -/
inductive Item where
  /-- A text. -/
  | text (value : String)
  /-- A truth value. -/
  | flag (value : Bool)
  /-- A whole number. -/
  | int (value : Int)
  /-- A number with a point or an exponent, a date or a time. -/
  | other
  /-- An array. -/
  | array (items : List Item)
  /-- Tables under one header in double brackets, the last one first. -/
  | tables (entries : List (List (String × Item)))
  /-- A table. -/
  | table (opening : Opening) (entries : List (String × Item))
  deriving Inhabited

/-- The entries of a table, in the order in which their keys were met. -/
abbrev Rows := List (String × Item)

namespace Rows

/-- Set what a key holds, or add it at the end. -/
def put (rows : Rows) (key : String) (item : Item) : Rows :=
  if (rows.lookup key).isSome then
    rows.map fun row => if row.1 = key then (key, item) else row
  else rows ++ [(key, item)]

/-- Change the table at the end of a path, opening the missing ones. A value on the way
is refused, and a dotted key also refuses a table that a header names. -/
def change (dotted : Bool) (f : Opening → Rows → Option Rows) :
    List String → Opening → Rows → Option Rows
  | [], opening, rows => f opening rows
  | key :: path, _, rows =>
    match rows.lookup key with
    | none => do
      let opening : Opening := if dotted then .dotted else .passing
      return rows.put key (.table opening (← change dotted f path opening []))
    | some (.table opening inner) =>
      if opening = .braces || (dotted && opening = .header) then none
      else do return rows.put key (.table opening (← change dotted f path opening inner))
    | some (.tables (last :: before)) => do
      return rows.put key (.tables ((← change dotted f path .header last) :: before))
    | some _ => none

/-- Give a new key its value. A dotted key may not end in a table that no dotted key
opened. -/
def assign (path : List String) (item : Item) (opening : Opening) (rows : Rows) : Option Rows :=
  let final (opening : Opening) (rows : Rows) : Option Rows :=
    match path.getLast? with
    | none => none
    | some key =>
      if (opening = .dotted) == path.dropLast.isEmpty || (rows.lookup key).isSome then none
      else some (rows.put key item)
  change true final path.dropLast opening rows

/-- Open a table by its header. -/
def openTable (path : List String) (root : Rows) : Option Rows :=
  let final (_ : Opening) (rows : Rows) : Option Rows :=
    match path.getLast? with
    | none => none
    | some key =>
      match rows.lookup key with
      | none => some (rows.put key (.table .header []))
      | some (.table .passing inner) => some (rows.put key (.table .header inner))
      | some _ => none
  change false final path.dropLast .header root

/-- Open one more table under a header in double brackets. -/
def openElement (path : List String) (root : Rows) : Option Rows :=
  let final (_ : Opening) (rows : Rows) : Option Rows :=
    match path.getLast? with
    | none => none
    | some key =>
      match rows.lookup key with
      | none => some (rows.put key (.tables [[]]))
      | some (.tables before) => some (rows.put key (.tables ([] :: before)))
      | some _ => none
  change false final path.dropLast .header root

end Rows

/-! ### As settings -/

/-- A list may give a group and be longer than it; an empty table or array marks a
choice. -/
def rules : SettingRules where
  listAsGroup := true
  longerLists := true
  isUnit
    | .group [] => true
    | .list [] => true
    | _ => false

mutual

/-- The settings of an item. -/
def Item.toSetting : Item → Setting
  | .text s => .word { text? := some s, choice? := some s }
  | .flag b => .word { flag? := some b }
  | .int n => .word { count? := if 0 ≤ n then some n.toNat else none }
  | .other => .word {}
  | .array items => .list (itemSettings items)
  | .tables entries => .list (tableSettings entries).reverse
  | .table _ entries => .group (rowSettings entries)

/-- The settings of items. -/
def itemSettings : List Item → List Setting
  | [] => []
  | item :: rest => item.toSetting :: itemSettings rest

/-- The settings of rows. -/
def rowSettings : List (String × Item) → List (String × Setting)
  | [] => []
  | (key, item) :: rest => (key, item.toSetting) :: rowSettings rest

/-- The settings of tables. -/
def tableSettings : List (List (String × Item)) → List Setting
  | [] => []
  | rows :: rest => .group (rowSettings rows) :: tableSettings rest

end

end Toml

end SchemaBundle
