/-
Where two sequences can be cut apart without lengthening their difference.

Paths through the grid of two sequences go right, down, or along a diagonal where the
items are the same.  On each diagonal the search keeps how far it has come with a
given number of steps off the diagonals, from both corners at once; where the two
meet, the shortest path runs through.  The search from the far corner is the search
from the near one with both sequences read backwards.
-/

namespace SchemaBundle

namespace Diff

/-- How far the search has come on each diagonal; diagonals are counted from the
corner, to both sides. -/
structure Front where
  /-- The furthest column on each diagonal. -/
  reach : Array Nat
  /-- The index of the diagonal through the corner. -/
  middle : Nat

namespace Front

/-- The front of a search with at most the given number of steps. -/
def start (steps : Nat) : Front :=
  ⟨Array.replicate (2 * steps + 3) 0, steps + 1⟩

/-- The furthest column on a diagonal. -/
def get (f : Front) (diagonal : Int) : Nat :=
  f.reach.getD (diagonal + f.middle).toNat 0

/-- Move on a diagonal. -/
def set (f : Front) (diagonal : Int) (column : Nat) : Front :=
  { f with reach := f.reach.setIfInBounds (diagonal + f.middle).toNat column }

end Front

/-- The diagonals that a number of steps can end on, from the highest to the lowest. -/
def diagonals (steps : Nat) : List Int :=
  (List.range (steps + 1)).map fun (i : Nat) => (steps : Int) - 2 * i

/-- How many items are the same from two positions on, at most `limit`. -/
def matching (same : Nat → Nat → Bool) : Nat → Nat → Nat → Nat
  | 0, _, _ => 0
  | limit + 1, i, j => if same i j then matching same limit (i + 1) (j + 1) + 1 else 0

/-- A run of equal items that ends a row of steps. -/
structure Snake where
  /-- The column where it starts. -/
  startColumn : Nat
  /-- The row where it starts. -/
  startRow : Nat
  /-- The column where it ends. -/
  endColumn : Nat
  /-- The row where it ends. -/
  endRow : Nat

/-- A direction of the search in a grid. -/
structure Sweep where
  /-- The number of columns. -/
  columns : Nat
  /-- The number of rows. -/
  rows : Nat
  /-- Whether the items at a column and a row are the same. -/
  same : Nat → Nat → Bool

/-- One more step that ends on a diagonal, and the run of equal items after it. -/
def Sweep.advance (s : Sweep) (f : Front) (steps : Nat) (diagonal : Int) : Snake :=
  let below := f.get (diagonal - 1)
  let above := f.get (diagonal + 1)
  let column :=
    if diagonal = -(steps : Int) || (diagonal ≠ steps && below < above) then above else below + 1
  let row := ((column : Int) - diagonal).toNat
  let run := matching s.same (min (s.columns - column) (s.rows - row)) column row
  ⟨column, row, column + run, row + run⟩

/-- One more step on each of the given diagonals, up to the first whose run meets the
other direction. -/
def Sweep.round (s : Sweep) (steps : Nat) (meets : Int → Nat → Bool) :
    List Int → Front → Front × Option Snake
  | [], f => (f, none)
  | diagonal :: rest, f =>
    let snake := s.advance f steps diagonal
    let f := f.set diagonal snake.endColumn
    if meets diagonal snake.endColumn then (f, some snake) else round s steps meets rest f

/-- Search with more and more steps from both corners; `left` is how many numbers of
steps are still to be tried. The result is a column and a row. -/
def findCut (near far : Sweep) : Nat → Nat → Front → Front → Option (Nat × Nat)
  | 0, _, _, _ => none
  | left + 1, steps, f, g =>
    let delta : Int := (near.columns : Int) - near.rows
    let odd : Bool := delta % 2 ≠ 0
    let meets (other : Front) (bound diagonal : Int) (column : Nat) : Bool :=
      (diagonal - delta).natAbs ≤ bound && near.columns ≤ column + other.get (delta - diagonal)
    match near.round steps (fun k x => odd && meets g ((steps : Int) - 1) k x)
        (diagonals steps) f with
    | (_, some snake) => some (snake.startColumn, snake.startRow)
    | (f, none) =>
      match far.round steps (fun k x => !odd && meets f steps k x) (diagonals steps) g with
      | (_, some snake) => some (near.columns - snake.endColumn, near.rows - snake.endRow)
      | (g, none) => findCut near far left (steps + 1) f g

end Diff

end SchemaBundle
