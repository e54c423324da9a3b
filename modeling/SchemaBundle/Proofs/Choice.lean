/-
The names that the search chooses.

The search is two loops, one in the other: prune until nothing changes, then drop the first
candidate of a key in conflict and start again.  Seen from outside it is one sequence of steps,
and a step of either kind drops a candidate.  So the number of candidates bounds the sequence,
and what is chosen is read off the state in which no step is left.

There every first candidate has what it requires, because nobody is in conflict.  That is all
that can be said in general, since among candidates of one key their order decides which of them
is dropped.  Where no key has two of them there is nothing to drop, and pruning alone never takes
a candidate from a choice that supports itself, be it in a circle.
-/
import SchemaBundle.Proofs.Sharing

namespace SchemaBundle

namespace Sharing

variable {v w : Candidates} {key name : String} {c : Candidate} {n : Nat}

/-! ### Steps -/

/-- One step of the search: a pruning that drops something or, where pruning drops nothing, the
first candidate of a key in conflict. -/
inductive Step : Candidates → Candidates → Prop
  | prune {v : Candidates} (h : prune v ≠ v) : Step v (prune v)
  | drop {v : Candidates} {key : String} (hsettled : Sharing.prune v = v)
      (h : conflict? (firstChoices v) v = some key) : Step v (dropFirst key v)

/-- So many steps, one after the other. -/
inductive Steps : Nat → Candidates → Candidates → Prop
  | nil (v : Candidates) : Steps 0 v v
  | cons {n : Nat} {u v w : Candidates} (h : Step u v) (hrest : Steps n v w) : Steps (n + 1) u w

theorem Steps.trans {m : Nat} {u : Candidates} (h : Steps m u v) (h' : Steps n v w) :
    Steps (m + n) u w := by
  induction h with
  | nil v => rwa [Nat.zero_add]
  | @cons m _ _ _ hstep _ ih =>
      rw [Nat.add_right_comm]
      exact .cons hstep (ih h')

/-- Pruning that changes something drops a candidate. -/
theorem total_prune_lt (h : prune v ≠ v) : total (prune v) < total v := by
  by_contra hle
  have hsettled : settle v = v := by rw [settle, if_neg hle]
  have hprune := prune_settle v
  rw [hsettled] at hprune
  exact h hprune

theorem Step.total_lt (h : Step v w) : total w < total v := by
  cases h with
  | prune h => exact total_prune_lt h
  | drop hsettled h => exact total_dropFirst_lt h

/-- **The search ends**: there are no more steps than candidates. -/
theorem Steps.length_le (h : Steps n v w) : n + total w ≤ total v := by
  induction h with
  | nil v => omega
  | cons hstep _ ih =>
      have hlt := hstep.total_lt
      omega

/-! ### Candidates only go -/

theorem has_of_has_dropFirst {dropped : String} (h : Has (dropFirst dropped v) key c) :
    Has v key c := by
  obtain ⟨cs, hmem, hc⟩ := h
  induction v with
  | nil => simp [dropFirst] at hmem
  | cons entry rest ih =>
      obtain ⟨k, all⟩ := entry
      rw [dropFirst] at hmem
      split at hmem
      all_goals rcases List.mem_cons.mp hmem with heq | hmem
      · obtain ⟨rfl, rfl⟩ := Prod.mk.inj heq
        exact ⟨all, List.mem_cons_self, List.mem_of_mem_tail hc⟩
      · obtain ⟨others, hothers, hc⟩ := ih hmem
        exact ⟨others, List.mem_cons_of_mem _ hothers, hc⟩
      · obtain ⟨rfl, rfl⟩ := Prod.mk.inj heq
        exact ⟨_, List.mem_cons_self, hc⟩
      · obtain ⟨others, hothers, hc⟩ := ih hmem
        exact ⟨others, List.mem_cons_of_mem _ hothers, hc⟩

theorem Step.has (h : Step v w) (hc : Has w key c) : Has v key c := by
  cases h with
  | prune h => exact (has_prune.mp hc).1
  | drop hsettled h => exact has_of_has_dropFirst hc

theorem Steps.has (h : Steps n v w) (hc : Has w key c) : Has v key c := by
  induction h with
  | nil v => exact hc
  | cons hstep _ ih => exact hstep.has (ih hc)

/-! ### Where the steps lead -/

/-- Pruning until nothing changes is a sequence of steps. -/
theorem exists_steps_settle (v : Candidates) : ∃ n, Steps n v (settle v) := by
  fun_induction settle v with
  | case1 v next hlt ih =>
      obtain ⟨n, hsteps⟩ := ih
      have hchanges : prune v ≠ v := fun heq => by
        have hsame : total next = total v := congrArg total heq
        omega
      exact ⟨n + 1, .cons (.prune hchanges) hsteps⟩
  | case2 v => exact ⟨0, .nil v⟩

/-- No step is left where pruning changes nothing and nobody is in conflict. -/
theorem not_step_iff :
    (∀ w, ¬ Step v w) ↔ prune v = v ∧ conflict? (firstChoices v) v = none := by
  constructor
  · intro h
    have hsettled : prune v = v := by
      by_contra hne
      exact h _ (.prune hne)
    refine ⟨hsettled, ?_⟩
    cases hconflict : conflict? (firstChoices v) v with
    | none => rfl
    | some key => exact absurd (.drop hsettled hconflict) (h _)
  · rintro ⟨hsettled, hnone⟩ w hstep
    cases hstep with
    | prune h => exact h hsettled
    | drop _ h => simp [hnone] at h

/-- **What is chosen are the first candidates of the state in which the steps end.** -/
theorem exists_steps_resolve (v : Candidates) :
    ∃ n last, Steps n v last ∧ (∀ w, ¬ Step last w) ∧ resolve v = firstChoices last := by
  fun_induction resolve v with
  | case1 v settled chosen hnone =>
      obtain ⟨n, hsteps⟩ := exists_steps_settle v
      exact ⟨n, settled, hsteps, not_step_iff.mpr ⟨prune_settle v, hnone⟩, rfl⟩
  | case2 v settled chosen key hconflict ih =>
      obtain ⟨m, hsettle⟩ := exists_steps_settle v
      obtain ⟨n, last, hsteps, hlast, hresolve⟩ := ih
      exact ⟨m + (n + 1), last,
        hsettle.trans (.cons (.drop (prune_settle v) hconflict) hsteps), hlast, hresolve⟩

/-! ### Consistent choices -/

/-- A partial choice of names for keys in which every name is that of a candidate of its key, and
the choice itself has all that the candidate requires. -/
def Consistent (v : Candidates) (choice : String → Option String) : Prop :=
  ∀ key name, choice key = some name → ∃ c, Has v key c ∧ c.name = name ∧
    ∀ sibling other, (sibling, other) ∈ c.requires → choice sibling = some other

/-- Where nobody is in conflict, first candidates agree with the first choices. -/
theorem agrees_of_conflict?_eq_none {chosen : List (String × String)} {cs : List Candidate}
    (h : conflict? chosen v = none) (hmem : (key, c :: cs) ∈ v) : c.agrees chosen = true := by
  induction v with
  | nil => simp at hmem
  | cons entry rest ih =>
      obtain ⟨k, all⟩ := entry
      cases all with
      | nil =>
          rw [conflict?] at h
          exact ih h (by simpa using hmem)
      | cons first others =>
          rw [conflict?] at h
          split at h
          · rename_i hagrees
            rcases List.mem_cons.mp hmem with heq | hmem
            · obtain ⟨-, heq⟩ := Prod.mk.inj heq
              rw [(List.cons.inj heq).1]
              exact hagrees
            · exact ih h hmem
          · simp at h

/-- A name that is chosen first is that of a first candidate. -/
theorem mem_of_get?_firstChoices (h : Entries.get? (firstChoices v) key = some name) :
    ∃ c cs, (key, c :: cs) ∈ v ∧ c.name = name := by
  obtain ⟨⟨k, all⟩, hmem, hfirst⟩ := List.mem_filterMap.mp (Entries.mem_of_get? h)
  obtain ⟨c, hhead, heq⟩ := Option.map_eq_some_iff.mp hfirst
  obtain ⟨rfl, rfl⟩ := Prod.mk.inj heq
  obtain ⟨cs, rfl⟩ := List.head?_eq_some_iff.mp hhead
  exact ⟨c, cs, hmem, rfl⟩

/-- Where nobody is in conflict, the first choices are consistent. -/
theorem consistent_firstChoices (h : conflict? (firstChoices v) v = none) :
    Consistent v (Entries.get? (firstChoices v)) := by
  intro key name hget
  obtain ⟨c, cs, hmem, hname⟩ := mem_of_get?_firstChoices hget
  refine ⟨c, ⟨_, hmem, List.mem_cons_self⟩, hname, fun sibling other hreq => ?_⟩
  have hagrees := agrees_of_conflict?_eq_none h hmem
  exact beq_iff_eq.mp (List.all_eq_true.mp hagrees _ hreq)

/-- **What is chosen is consistent.** -/
theorem consistent_resolve (v : Candidates) : Consistent v (Entries.get? (resolve v)) := by
  obtain ⟨n, last, hsteps, hlast, hresolve⟩ := exists_steps_resolve v
  rw [hresolve]
  intro key name hget
  obtain ⟨c, hc, hname, hrequires⟩ :=
    consistent_firstChoices (not_step_iff.mp hlast).2 key name hget
  exact ⟨c, hsteps.has hc, hname, hrequires⟩

theorem Unambiguous.settle (h : Unambiguous v) : Unambiguous (settle v) := by
  intro key cs hmem
  obtain ⟨all, hall, hsub⟩ := settle_sublist hmem
  exact hsub.length_le.trans (h key all hall)

/-- A consistent choice loses nothing when candidates are pruned. -/
theorem has_settle_of_consistent {choice : String → Option String} (h : Consistent v choice)
    (hkey : choice key = some name) : ∃ c, Has (settle v) key c ∧ c.name = name := by
  obtain ⟨c, hc, hname, hrequires⟩ := h key name hkey
  refine ⟨c, ?_, hname⟩
  -- the candidates of the choice support each other
  refine settle_greatest (T := fun key c => Has v key c ∧
    ∀ sibling other, (sibling, other) ∈ c.requires → choice sibling = some other)
    (fun _ _ hT => hT.1) (fun _ _ hT sibling other hreq => ?_) ⟨hc, hrequires⟩
  obtain ⟨c', hc', hname', hrequires'⟩ := h sibling other (hT.2 sibling other hreq)
  exact ⟨c', ⟨hc', hrequires'⟩, hname'⟩

/-- **The search ends with a consistent choice, the largest one where nobody competes.** It takes
at most as many steps as there are candidates, and the result is what the last state chooses. In
the result every key has the name of one of its own candidates, and that candidate has in the
result all that it requires. When no key has two candidates, every consistent choice is part of
the result. -/
theorem resolve_largest (v : Candidates) :
    ((∀ n w, Steps n v w → n ≤ total v) ∧
      ∃ n last, Steps n v last ∧ (∀ w, ¬ Step last w) ∧ resolve v = firstChoices last) ∧
    Consistent v (Entries.get? (resolve v)) ∧
    (Entries.Sorted v → Unambiguous v → ∀ choice, Consistent v choice →
      ∀ key name, choice key = some name → Entries.get? (resolve v) key = some name) := by
  refine ⟨⟨fun n w hsteps => ?_, exists_steps_resolve v⟩, consistent_resolve v, ?_⟩
  · exact (Nat.le_add_right n _).trans hsteps.length_le
  · intro hsorted hun choice hchoice key name hkey
    rw [get?_resolve hsorted.keys_nodup hun.settle]
    exact has_settle_of_consistent hchoice hkey

/-- Two keys that require each other, and one that requires what nobody offers. -/
def circle : Candidates :=
  [("Axle", [⟨"Axle", [("Wheel", "Wheel")]⟩]), ("Motor", [⟨"Motor", [("Wheel", "Wheel2")]⟩]),
    ("Wheel", [⟨"Wheel", [("Axle", "Axle")]⟩])]

/-- The two keys of the circle, each with the name of its candidate. -/
def inCircle (key : String) : Option String :=
  if key = "Axle" ∨ key = "Wheel" then some key else none

theorem resolve_largest_circle :
    Entries.get? (resolve circle) "Axle" = some "Axle" ∧
      Entries.get? (resolve circle) "Wheel" = some "Wheel" ∧
      Entries.get? (resolve circle) "Motor" = none := by
  obtain ⟨-, hconsistent, hlargest⟩ := resolve_largest circle
  have hun : Unambiguous circle := by
    have hone : ∀ entry ∈ circle, entry.2.length ≤ 1 := by decide
    exact fun key cs hmem => hone _ hmem
  have hchoice : Consistent circle inCircle := by
    intro key name hkey
    unfold inCircle at hkey
    split at hkey
    · rename_i hcircle
      obtain rfl := Option.some.inj hkey
      rcases hcircle with rfl | rfl
      · exact ⟨⟨"Axle", [("Wheel", "Wheel")]⟩, ⟨_, List.mem_cons_self, List.mem_cons_self⟩, rfl,
          by simp [inCircle]⟩
      · exact ⟨⟨"Wheel", [("Axle", "Axle")]⟩, ⟨[_], by simp [circle], List.mem_cons_self⟩, rfl,
          by simp [inCircle]⟩
    · simp at hkey
  have hsorted : Entries.Sorted circle := by decide
  have hpart := hlargest hsorted hun inCircle hchoice
  refine ⟨hpart "Axle" "Axle" rfl, hpart "Wheel" "Wheel" rfl, ?_⟩
  -- the motor would need a wheel of another name
  cases hmotor : Entries.get? (resolve circle) "Motor" with
  | none => rfl
  | some name =>
      obtain ⟨c, ⟨cs, hmem, hc⟩, -, hrequires⟩ := hconsistent "Motor" name hmotor
      obtain rfl : cs = [⟨"Motor", [("Wheel", "Wheel2")]⟩] := by simpa [circle] using hmem
      obtain rfl := List.mem_singleton.mp hc
      have hwheel := hrequires "Wheel" "Wheel2" List.mem_cons_self
      rw [hpart "Wheel" "Wheel" rfl] at hwheel
      simp at hwheel

end Sharing

end SchemaBundle
