/-
The document of a YAML text.

Tokens are read as the grammar of the language: blocks and brackets hold nodes, a
node may be missing where the grammar leaves room for one and is then an empty plain
scalar, and anchors and tags stand in front of nodes.  An anchor is known by a
number; a text has one document at most.
-/
import SchemaBundle.Yaml.Token

namespace SchemaBundle

namespace Yaml

/-- A node of a document. Tags are in full. -/
inductive Node where
  /-- The node with an anchor of the given number. -/
  | alias (anchor : Nat)
  /-- A scalar, and whether it is plain. -/
  | scalar (tag : Option String) (text : String) (plain : Bool)
  /-- A list of nodes. -/
  | sequence (tag : Option String) (items : List Node)
  /-- A list of keys and values. -/
  | mapping (tag : Option String) (entries : List (Node × Node))
  deriving Inhabited

/-- The missing node. -/
def Node.empty : Node :=
  .scalar none "" true

/-- The reader of nodes. -/
structure NodeReader where
  /-- The tokens that are left. -/
  tokens : List Token
  /-- The short forms for tags. -/
  handles : List (String × String)
  /-- The anchors met so far with their numbers, the latest first. -/
  anchors : List (String × Nat)
  /-- The places where anchors of a number stand, the latest first. -/
  places : List (Nat × Nat)
  /-- The nodes by the places of their anchors. -/
  anchored : List (Nat × Node)
  /-- How many parts of nodes were met; a sequence and a mapping count twice. -/
  events : Nat

/-- A step of the reader, which fails where the grammar is violated. -/
abbrev Reading := StateT NodeReader Option

namespace Reading

/-- Fail. -/
def refuse {α : Type} : Reading α :=
  fun _ => none

/-- The next token. -/
def peek : Reading (Option Token) := do
  return (← get).tokens.head?

/-- Go over the next token. -/
def skip : Reading Unit :=
  modify fun r => { r with tokens := r.tokens.drop 1 }

/-- Whether the next token is one of the given ones; the end of the text is none. -/
def sees (tokens : List Token) : Reading Bool := do
  return (← peek).any tokens.contains

/-- Count parts of nodes. -/
def count (n : Nat) : Reading Unit :=
  modify fun r => { r with events := r.events + n }

/-- A missing node. -/
def missing : Reading Node := do
  count 1
  return .empty

/-- Meet an anchor: its number is how many different names there were before. The
result is its place. -/
def anchorHere (name : String) : Reading Nat := do
  let r ← get
  let number := (r.anchors.map Prod.fst).eraseDups.length
  let place := r.places.length
  set { r with anchors := (name, number) :: r.anchors, places := (number, place) :: r.places }
  return place

/-- Keep a node under the place of its anchor. -/
def keep (anchor : Option Nat) (node : Node) : Reading Node := do
  match anchor with
  | none => return node
  | some place =>
    modify fun r => { r with anchored := (place, node) :: r.anchored }
    return node

/-- A tag in full. -/
def fullTag (handle suffix : String) : Reading String := do
  if handle = "" then return suffix
  else
    match (← get).handles.lookup handle with
    | some stands => return stands ++ suffix
    | none => refuse

/-- What stands in front of a node: an anchor and a tag, in any order. -/
def properties : Reading (Option Nat × Option String) := do
  match ← peek with
  | some (.anchor name) =>
    skip
    let tag? ← tagHere
    return (some (← anchorHere name), tag?)
  | some (.tag handle suffix) =>
    skip
    match ← peek with
    | some (.anchor name) =>
      skip
      let tag ← fullTag handle suffix
      return (some (← anchorHere name), some tag)
    | _ => return (none, some (← fullTag handle suffix))
  | _ => return (none, none)
where
  /-- A tag, if one stands here. -/
  tagHere : Reading (Option String) := do
    match ← peek with
    | some (.tag handle suffix) =>
      skip
      return some (← fullTag handle suffix)
    | _ => return none

/-- Where a node stands, which decides what it may be. -/
inductive Place where
  /-- Inside brackets: no block may start. -/
  | flow
  /-- In a block. -/
  | block
  /-- In a block mapping, where a list needs no indentation. -/
  | entry
  deriving DecidableEq

mutual

/-- Read a node; `fuel` bounds the number of calls below this one. -/
def node (fuel : Nat) (place : Place) : Reading Node := do
  match fuel with
  | 0 => refuse
  | fuel + 1 =>
    match ← peek with
    | some (.alias name) =>
      skip
      count 1
      match (← get).anchors.lookup name with
      | some anchor => return .alias anchor
      | none => refuse
    | _ =>
      let (anchor, tag) ← properties
      match ← peek with
      | some (.scalar text plain) =>
        skip
        count 1
        keep anchor (.scalar tag text plain)
      | some .flowSequenceStart =>
        skip
        count 2
        keep anchor (.sequence tag (← flowSequence fuel true))
      | some .flowMappingStart =>
        skip
        count 2
        keep anchor (.mapping tag (← flowMapping fuel true))
      | some .blockEntry =>
        if place = .entry then
          count 2
          keep anchor (.sequence tag (← indentless fuel))
        else bare anchor tag
      | some .blockSequenceStart =>
        if place = .flow then bare anchor tag
        else
          skip
          count 2
          keep anchor (.sequence tag (← blockSequence fuel))
      | some .blockMappingStart =>
        if place = .flow then bare anchor tag
        else
          skip
          count 2
          keep anchor (.mapping tag (← blockMapping fuel))
      | _ => bare anchor tag

/-- A node that consists of an anchor or a tag alone. -/
def bare (anchor : Option Nat) (tag : Option String) : Reading Node := do
  if anchor.isNone && tag.isNone then refuse
  else
    count 1
    keep anchor (.scalar tag "" true)

/-- A node, or a missing one if one of the given tokens stands here. -/
def nodeUnless (fuel : Nat) (place : Place) (tokens : List Token) : Reading Node := do
  match fuel with
  | 0 => refuse
  | fuel + 1 => if ← sees tokens then missing else node fuel place

/-- Read the entries of a block sequence and its end. -/
def blockSequence (fuel : Nat) : Reading (List Node) := do
  match fuel with
  | 0 => refuse
  | fuel + 1 =>
    match ← peek with
    | some .blockEntry =>
      skip
      let item ← nodeUnless fuel .block [.blockEntry, .blockEnd]
      return item :: (← blockSequence fuel)
    | some .blockEnd =>
      skip
      return []
    | _ => refuse

/-- Read the entries of a sequence that is not indented. -/
def indentless (fuel : Nat) : Reading (List Node) := do
  match fuel with
  | 0 => refuse
  | fuel + 1 =>
    if ← sees [.blockEntry] then
      skip
      let item ← nodeUnless fuel .block [.blockEntry, .key, .value, .blockEnd]
      return item :: (← indentless fuel)
    else return []

/-- Read the entries of a block mapping and its end. -/
def blockMapping (fuel : Nat) : Reading (List (Node × Node)) := do
  match fuel with
  | 0 => refuse
  | fuel + 1 =>
    match ← peek with
    | some .key =>
      skip
      let key ← nodeUnless fuel .entry [.key, .value, .blockEnd]
      let value ← valueAfter fuel .entry [.key, .value, .blockEnd]
      return (key, value) :: (← blockMapping fuel)
    | some .blockEnd =>
      skip
      return []
    | _ => refuse

/-- Read the value behind a key, which may be missing. -/
def valueAfter (fuel : Nat) (place : Place) (tokens : List Token) : Reading Node := do
  match fuel with
  | 0 => refuse
  | fuel + 1 =>
    if ← sees [.value] then
      skip
      nodeUnless fuel place tokens
    else missing

/-- Read the entries of a sequence in brackets and its end. -/
def flowSequence (fuel : Nat) (first : Bool) : Reading (List Node) := do
  match fuel with
  | 0 => refuse
  | fuel + 1 =>
    if ← sees [.flowSequenceEnd] then
      skip
      return []
    else
      separator first
      match ← peek with
      | some .flowSequenceEnd =>
        skip
        return []
      | some .key =>
        skip
        count 2
        let key ← pairKey fuel
        let value ← valueAfter fuel .flow [.flowEntry, .flowSequenceEnd]
        return .mapping none [(key, value)] :: (← flowSequence fuel false)
      | _ =>
        let item ← node fuel .flow
        return item :: (← flowSequence fuel false)

/-- Read the key of a single pair in a sequence. A missing key takes the token behind
it along. -/
def pairKey (fuel : Nat) : Reading Node := do
  match fuel with
  | 0 => refuse
  | fuel + 1 =>
    if ← sees [.value, .flowEntry, .flowSequenceEnd] then
      skip
      missing
    else node fuel .flow

/-- Read the entries of a mapping in brackets and its end. -/
def flowMapping (fuel : Nat) (first : Bool) : Reading (List (Node × Node)) := do
  match fuel with
  | 0 => refuse
  | fuel + 1 =>
    if ← sees [.flowMappingEnd] then
      skip
      return []
    else
      separator first
      match ← peek with
      | some .flowMappingEnd =>
        skip
        return []
      | some .key =>
        skip
        let key ← nodeUnless fuel .flow [.value, .flowEntry, .flowMappingEnd]
        let value ← valueAfter fuel .flow [.flowEntry, .flowMappingEnd]
        return (key, value) :: (← flowMapping fuel false)
      | _ =>
        let key ← node fuel .flow
        let value ← missing
        return (key, value) :: (← flowMapping fuel false)

/-- The comma in front of every entry but the first. -/
def separator (first : Bool) : Reading Unit := do
  if first then return ()
  else if ← sees [.flowEntry] then skip
  else refuse

end

/-! ### Documents -/

/-- Read the lines in front of a document that start with a percent sign; `fuel`
bounds their number. -/
def directives : Nat → Bool → List (String × String) → Reading (List (String × String))
  | 0, _, _ => refuse
  | fuel + 1, versioned, handles => do
    match ← peek with
    | some (.version major minor) =>
      if versioned || major ≠ 1 || (minor ≠ 1 && minor ≠ 2) then refuse
      else
        skip
        directives fuel true handles
    | some (.tagHandle handle stands) =>
      if handles.any fun entry => entry.1 = handle then refuse
      else
        skip
        directives fuel versioned (handles ++ [(handle, stands)])
    | _ => return handles

/-- The short forms that need no declaration. -/
def standardHandles : List (String × String) :=
  [("!", "!"), ("!!", "tag:yaml.org,2002:")]

/-- Read the only document of a text; `none` stands for a text without any. -/
def document (fuel : Nat) : Reading (Option Node) := do
  match ← peek with
  | none => return none
  | some first =>
    let declared := match first with
      | .version .. => true
      | .tagHandle .. => true
      | .documentStart => true
      | _ => false
    let handles ← directives fuel false []
    modify fun r => { r with handles := handles ++ standardHandles }
    let content ←
      if declared then
        if ← sees [.documentStart] then
          skip
          match ← peek with
          | none => missing
          | some (.version ..) => missing
          | some (.tagHandle ..) => missing
          | some .documentStart => missing
          | some .documentEnd => missing
          | some _ => node fuel .block
        else refuse
      else node fuel .block
    modify fun r => { r with tokens := r.tokens.dropWhile (· == .documentEnd) }
    if (← peek).isNone then return some content else refuse

end Reading

/-- A document with what its aliases stand for. -/
structure Document where
  /-- The root, `none` for a text without document. -/
  root : Option Node
  /-- The places of the anchors by their numbers. -/
  places : List (Nat × Nat)
  /-- The nodes by the places of their anchors. -/
  anchored : List (Nat × Node)
  /-- How many parts the document has. -/
  events : Nat

/-- What an alias stands for: the node at the last anchor of its number. -/
def Document.anchor? (d : Document) (number : Nat) : Option Node :=
  (d.places.lookup number).bind fun place => d.anchored.lookup place

/-- The document of a text. Between two tokens there are only a few calls, so the
number of tokens bounds their depth. -/
def document? (text : String) : Option Document := do
  let tokens ← tokens? text
  let fuel := 4 * tokens.length + 8
  let (root, r) ← (Reading.document fuel).run ⟨tokens, [], [], [], [], 0⟩
  return ⟨root, r.places, r.anchored, r.events⟩

end Yaml

end SchemaBundle
