/-
The difference of two sequences of lines.

A script is a row of runs: lines that both sequences have, lines that only the old one
has, and lines that only the new one has.  Each run knows its lines by their numbers,
and read in order the runs are both sequences from end to end.  A script is found by
cutting the sequences apart; afterwards insertions are moved as far up and then as
far down as the lines around them allow, so that neighbouring ones become one.
-/
import SchemaBundle.Diff.Search

namespace SchemaBundle

namespace Diff

/-- A run of a script. -/
inductive Run where
  /-- Lines that both sequences have. -/
  | same (old new count : Nat)
  /-- Lines of the old sequence only. -/
  | deleted (old count : Nat)
  /-- Lines of the new sequence only. -/
  | inserted (new count : Nat)
  deriving DecidableEq

/-- The two sequences. -/
structure Texts where
  /-- The lines before. -/
  old : Array String
  /-- The lines after. -/
  new : Array String

namespace Texts

/-- Whether an old and a new line are the same. -/
def same (t : Texts) (i j : Nat) : Bool :=
  match t.old[i]?, t.new[j]? with
  | some a, some b => a == b
  | _, _ => false

/-- How many lines are the same in front of two positions, at most `limit`. -/
def matchingBefore (t : Texts) (limit oldEnd newEnd : Nat) : Nat :=
  matching (fun i j => t.same (oldEnd - 1 - i) (newEnd - 1 - j)) limit 0 0

end Texts

/-! ### Finding a script -/

/-- A part of the two sequences. -/
structure Region where
  oldStart : Nat
  oldEnd : Nat
  newStart : Nat
  newEnd : Nat

/-- Where to cut a region in which both sequences have lines, no two of which start it
or end it as the same lines. -/
def Texts.cut? (t : Texts) (r : Region) : Option (Nat × Nat) :=
  let columns := r.oldEnd - r.oldStart
  let rows := r.newEnd - r.newStart
  let near : Sweep := ⟨columns, rows, fun i j => t.same (r.oldStart + i) (r.newStart + j)⟩
  let far : Sweep := ⟨columns, rows, fun i j => t.same (r.oldEnd - 1 - i) (r.newEnd - 1 - j)⟩
  let steps := (columns + rows + 1) / 2 + 1
  (findCut near far steps 0 (.start steps) (.start steps)).map fun (column, row) =>
    (r.oldStart + column, r.newStart + row)

/-- A run of lines that both sequences have, unless it is empty. -/
def sameRun (old new count : Nat) : List Run :=
  if count = 0 then [] else [.same old new count]

/-- The script of a region; `fuel` bounds how often it is cut. -/
def Texts.scriptOf (t : Texts) : Nat → Region → List Run
  | 0, r =>
    [.deleted r.oldStart (r.oldEnd - r.oldStart), .inserted r.newStart (r.newEnd - r.newStart)]
  | fuel + 1, r =>
    let first := matching t.same (min (r.oldEnd - r.oldStart) (r.newEnd - r.newStart))
      r.oldStart r.newStart
    let oldStart := r.oldStart + first
    let newStart := r.newStart + first
    let last := t.matchingBefore (min (r.oldEnd - oldStart) (r.newEnd - newStart)) r.oldEnd r.newEnd
    let oldEnd := r.oldEnd - last
    let newEnd := r.newEnd - last
    let between :=
      if oldStart = oldEnd && newStart = newEnd then []
      else if newStart = newEnd then [.deleted oldStart (oldEnd - oldStart)]
      else if oldStart = oldEnd then [.inserted newStart (newEnd - newStart)]
      else
        match t.cut? ⟨oldStart, oldEnd, newStart, newEnd⟩ with
        | some (old, new) =>
          t.scriptOf fuel ⟨oldStart, old, newStart, new⟩ ++
            t.scriptOf fuel ⟨old, oldEnd, new, newEnd⟩
        | none =>
          [.deleted oldStart (oldEnd - oldStart), .inserted newStart (newEnd - newStart)]
    sameRun r.oldStart r.newStart first ++ between ++ sameRun oldEnd newEnd last

/-! ### Moving insertions -/

/-- A run with the runs before it, nearest first, and those after it. -/
structure Focus where
  before : List Run
  run : Run
  after : List Run

/-- The runs before a place without the last lines of the nearest one. -/
def dropLast (old new count k : Nat) (before : List Run) : List Run :=
  sameRun old new (count - k) ++ before

/-- Lines that both sequences have, joined to a run of such lines that follows. -/
def joinAfter (old new k : Nat) : List Run → List Run
  | .same old' new' count :: after => .same (old' - k) (new' - k) (count + k) :: after
  | after => .same old new k :: after

/-- Lines that both sequences have, joined to a run of such lines that precedes. -/
def joinBefore (old new k : Nat) : List Run → List Run
  | .same old' new' count :: before => .same old' new' (count + k) :: before
  | before => .same old new k :: before

/-- Move a run up once; `none` when it stays. -/
def Focus.up? (t : Texts) (f : Focus) : Option Focus :=
  match f.run, f.before with
  | .inserted new count, .same old' new' count' :: before =>
    let k := t.matchingBefore (min count count') (old' + count') (new + count)
    if k = 0 then none
    else
      some ⟨dropLast old' new' count' k before, .inserted (new - k) count,
        joinAfter (old' + count' - k) (new + count - k) k f.after⟩
  | .inserted _ count, .inserted new' count' :: before =>
    some { f with before, run := .inserted new' (count' + count) }
  | .deleted _ count, .deleted old' count' :: before =>
    some { f with before, run := .deleted old' (count' + count) }
  | .inserted .., .deleted old' count' :: before =>
    some { f with before, after := .deleted old' count' :: f.after }
  | .deleted .., .inserted new' count' :: before =>
    some { f with before, after := .inserted new' count' :: f.after }
  | _, _ => none

/-- Move a run down once; `none` when it stays. -/
def Focus.down? (t : Texts) (f : Focus) : Option Focus :=
  match f.run, f.after with
  | .inserted new count, .same old' new' count' :: after =>
    let k := matching t.same (min count count') old' new
    if k = 0 then none
    else
      some ⟨joinBefore old' new k f.before, .inserted (new + k) count,
        sameRun (old' + k) (new' + k) (count' - k) ++ after⟩
  | .inserted new count, .inserted _ count' :: after =>
    some { f with after, run := .inserted new (count + count') }
  | .deleted old count, .deleted _ count' :: after =>
    some { f with after, run := .deleted old (count + count') }
  | .inserted .., .deleted old' count' :: after =>
    some { f with after, before := .deleted old' count' :: f.before }
  | .deleted .., .inserted new' count' :: after =>
    some { f with after, before := .inserted new' count' :: f.before }
  | _, _ => none

/-- Repeat a move until the run stays; `fuel` bounds the number of moves. -/
def Focus.repeatMove (move : Focus → Option Focus) : Nat → Focus → Focus
  | 0, f => f
  | fuel + 1, f =>
    match move f with
    | some f => repeatMove move fuel f
    | none => f

/-- Move every run of a kind up and then down, walking from the first run to the last;
`fuel` bounds the number of steps. -/
def settle (t : Texts) (kind : Run → Bool) (moves : Nat) : Nat → List Run → List Run → List Run
  | 0, before, rest => before.reverse ++ rest
  | _ + 1, before, [] => before.reverse
  | fuel + 1, before, run :: rest =>
    if kind run then
      let f := Focus.repeatMove (Focus.up? t) moves ⟨before, run, rest⟩
      let f := Focus.repeatMove (Focus.down? t) moves f
      settle t kind moves fuel (f.run :: f.before) f.after
    else settle t kind moves fuel (run :: before) rest

/-- Whether lines are deleted. -/
def Run.isDeletion : Run → Bool
  | .deleted .. => true
  | _ => false

/-- Whether lines are inserted. -/
def Run.isInsertion : Run → Bool
  | .inserted .. => true
  | _ => false

/-- The script from one sequence to another. Every cut makes the parts smaller, and a
run that is moved passes each line and each run at most once in each direction. -/
def Texts.script (t : Texts) : List Run :=
  let size := t.old.size + t.new.size + 2
  let found := t.scriptOf size ⟨0, t.old.size, 0, t.new.size⟩
  let settled := settle t Run.isDeletion (Nat.pow size 2) (Nat.pow size 3) [] found
  settle t Run.isInsertion (Nat.pow size 2) (Nat.pow size 3) [] settled

end Diff

end SchemaBundle
