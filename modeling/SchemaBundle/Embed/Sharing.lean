/-
Which definitions two documents may share.

A definition of a new document may take the name of an equal definition that is
already there, provided that what it refers to is shared as well: a candidate says
which other keys of the document would have to take which names.  Candidates whose
requirements nobody offers are dropped until all that is left is supported; then
each key takes its first candidate.  If two first choices disagree, one is dropped
and the search goes on.  Every round drops a candidate, so the number of candidates
bounds the search.
-/
import SchemaBundle.Entries

namespace SchemaBundle

namespace Sharing

/-- A definition that a key could share. -/
structure Candidate where
  /-- The name of the definition. -/
  name : String
  /-- The keys that would have to be shared as well, and their names. -/
  requires : List (String × String)
  deriving DecidableEq

/-- The candidates of every key, in key order. -/
abbrev Candidates := List (String × List Candidate)

/-- What is on offer: a name for a key. -/
def offers (viable : Candidates) : List (String × String) :=
  viable.flatMap fun (key, candidates) => candidates.map fun c => (key, c.name)

/-- Whether all requirements of a candidate are on offer. -/
def Candidate.supported (offered : List (String × String)) (c : Candidate) : Bool :=
  c.requires.all offered.contains

/-- Drop the candidates whose requirements are not on offer. -/
def prune (viable : Candidates) : Candidates :=
  let offered := offers viable
  viable.map fun (key, candidates) => (key, candidates.filter (Candidate.supported offered))

/-- How many candidates there are. -/
def total : Candidates → Nat
  | [] => 0
  | (_, candidates) :: rest => candidates.length + total rest

/-- Prune until nothing changes. -/
def settle (viable : Candidates) : Candidates :=
  let next := prune viable
  if total next < total viable then settle next else viable
termination_by total viable

/-- The first candidate of every key that has one. -/
def firstChoices (viable : Candidates) : List (String × String) :=
  viable.filterMap fun (key, candidates) => candidates.head?.map fun c => (key, c.name)

/-- Whether a first choice agrees with the first choices of the other keys. -/
def Candidate.agrees (chosen : List (String × String)) (c : Candidate) : Bool :=
  c.requires.all fun (sibling, name) => Entries.get? chosen sibling == some name

/-- The first key whose first choice disagrees with another one. -/
def conflict? (chosen : List (String × String)) : Candidates → Option String
  | [] => none
  | (_, []) :: rest => conflict? chosen rest
  | (key, c :: _) :: rest => if c.agrees chosen then conflict? chosen rest else some key

/-- Drop the first candidate of a key. -/
def dropFirst (key : String) : Candidates → Candidates
  | [] => []
  | (k, candidates) :: rest =>
    if k = key then (k, candidates.tail) :: dropFirst key rest
    else (k, candidates) :: dropFirst key rest

/-! ### The search ends -/

theorem total_settle_le (viable : Candidates) : total (settle viable) ≤ total viable := by
  fun_induction settle viable with
  | case1 viable next h ih => omega
  | case2 => exact Nat.le_refl _

theorem total_dropFirst_le (key : String) (viable : Candidates) :
    total (dropFirst key viable) ≤ total viable := by
  induction viable with
  | nil => exact Nat.le_refl _
  | cons entry rest ih =>
    obtain ⟨k, candidates⟩ := entry
    unfold dropFirst
    split <;> simp only [total, List.length_tail] <;> omega

/-- A key in conflict has a candidate to drop. -/
theorem total_dropFirst_lt {chosen : List (String × String)} {key : String} {viable : Candidates}
    (h : conflict? chosen viable = some key) : total (dropFirst key viable) < total viable := by
  induction viable with
  | nil => simp [conflict?] at h
  | cons entry rest ih =>
    obtain ⟨k, candidates⟩ := entry
    have hle := total_dropFirst_le key rest
    unfold dropFirst
    cases candidates with
    | nil =>
      have := ih h
      split <;> simp only [total, List.tail_nil, List.length_nil] <;> omega
    | cons c cs =>
      by_cases hc : c.agrees chosen = true
      · have := ih (by simpa [conflict?, hc] using h)
        split <;> simp only [total, List.length_tail, List.length_cons] <;> omega
      · have hk : k = key := by simpa [conflict?, hc] using h
        simp only [hk, if_true, total, List.length_tail, List.length_cons]
        omega

/-- A name for every key that shares a definition. -/
def resolve (viable : Candidates) : List (String × String) :=
  let settled := settle viable
  let chosen := firstChoices settled
  match _h : conflict? chosen settled with
  | none => chosen
  | some key => resolve (dropFirst key settled)
termination_by total viable
decreasing_by
  exact Nat.lt_of_lt_of_le (total_dropFirst_lt _h) (total_settle_le viable)

end Sharing

end SchemaBundle
