/-
What an allocator answers, call by call.

An allocator is asked for names and told of names in any order.  A plain allocator keeps nothing
but the names in use: asked for a name it tries the candidates one after the other, puts each of
them in use, and stops at the first that was not.  Trying a name that is in use changes nothing,
so a request that fails leaves all as it was.

The allocator that remembers where to go on answers as the plain one does, because the numbers
that it skips are in use.  So its answers depend on the calls before only through the names that
these put in use, and among them the names of two bases are not told apart: `car` with 12 and
`car1` with 2 are one name, and whoever asks first gets it.
-/
import Mathlib.Data.List.Dedup
import SchemaBundle.Proofs.Naming

namespace SchemaBundle

namespace NameAllocator

/-- A use of an allocator. -/
inductive Call where
  /-- Keep a name out. -/
  | reserve (name : String)
  /-- Ask for a name for an identity. -/
  | allocate (base identity : String)

/-- What a call answers: the name that it puts in use, or why it fails. -/
abbrev Answer := Except Error String

/-- One call on an allocator. After a call that fails the allocator is used on. -/
def call (a : NameAllocator) : Call → Answer × NameAllocator
  | .reserve name => (.ok name, a.reserve name)
  | .allocate base identity =>
    match a.allocate base identity with
    | .ok (name, next) => (.ok name, next)
    | .error error => (.error error, a)

/-- The names that were put in use by calls with the given answers. -/
def inUse (answers : List Answer) : List String :=
  answers.filterMap Except.toOption

/-! ### Trying one name after the other -/

/-- Put names in use one after the other, up to the first that was not; that one is the result. -/
def tryNames (used : List String) : List String → Option String × List String
  | [] => (none, used)
  | name :: rest =>
    if name ∈ used then tryNames (used.insert name) rest else (some name, used.insert name)

/-- One call where nothing but the names in use is kept. -/
def tryCall (maxSuffix : Nat) (used : List String) : Call → Answer × List String
  | .reserve name => (.ok name, used.insert name)
  | .allocate base identity =>
    if base = "" then (.error (.nameCollision base identity), used)
    else
      match tryNames used (candidates base maxSuffix) with
      | (some name, used) => (.ok name, used)
      | (none, used) => (.error (.nameCollision base identity), used)

/-- The first of some names that is not in use. -/
def firstUnused? (used names : List String) : Option String :=
  names.find? fun name => name ∉ used

theorem firstUnused?_eq_none {used names : List String} :
    firstUnused? used names = none ↔ ∀ name ∈ names, name ∈ used := by
  simp [firstUnused?, List.find?_eq_none]

theorem not_mem_of_firstUnused? {used names : List String} {name : String}
    (h : firstUnused? used names = some name) : name ∉ used := by
  simpa using List.find?_some h

theorem tryNames_eq (used names : List String) :
    tryNames used names = match firstUnused? used names with
      | some name => (some name, name :: used)
      | none => (none, used) := by
  induction names with
  | nil => rfl
  | cons name rest ih =>
      unfold firstUnused?
      by_cases hname : name ∈ used
      · rw [tryNames, if_pos hname, List.insert_of_mem hname, ih,
          List.find?_cons_of_neg (by simpa using hname)]
        rfl
      · rw [tryNames, if_neg hname, List.insert_of_not_mem hname,
          List.find?_cons_of_pos (by simpa using hname)]

variable {a : NameAllocator} {base identity name : String} {maxSuffix : Nat} {used : List String}
  {error : Error} {c : Call}

/-- A request is answered with the first candidate that is not in use, and fails if there is
none. -/
theorem tryCall_allocate (maxSuffix : Nat) (used : List String) (base identity : String) :
    tryCall maxSuffix used (.allocate base identity) =
      match if base = "" then none else firstUnused? used (candidates base maxSuffix) with
      | some name => (.ok name, name :: used)
      | none => (.error (.nameCollision base identity), used) := by
  by_cases hbase : base = ""
  · rw [if_pos hbase]
    exact if_pos hbase
  · have hcall : tryCall maxSuffix used (.allocate base identity) =
        match tryNames used (candidates base maxSuffix) with
        | (some name, used) => (.ok name, used)
        | (none, used) => (.error (.nameCollision base identity), used) := if_neg hbase
    rw [hcall, tryNames_eq, if_neg hbase]
    cases firstUnused? used (candidates base maxSuffix) <;> rfl

theorem tryCall_ok_iff : (tryCall maxSuffix used (.allocate base identity)).1 = .ok name ↔
    base ≠ "" ∧ firstUnused? used (candidates base maxSuffix) = some name := by
  rw [tryCall_allocate]
  by_cases hbase : base = ""
  · simp [hbase]
  · rw [if_neg hbase]
    cases firstUnused? used (candidates base maxSuffix) <;> simp [hbase]

theorem tryCall_error_iff : (tryCall maxSuffix used (.allocate base identity)).1 = .error error ↔
    error = .nameCollision base identity ∧
      (base = "" ∨ ∀ name ∈ candidates base maxSuffix, name ∈ used) := by
  rw [tryCall_allocate, ← firstUnused?_eq_none]
  by_cases hbase : base = ""
  · simp [hbase, eq_comm]
  · rw [if_neg hbase]
    cases firstUnused? used (candidates base maxSuffix) <;> simp [hbase, eq_comm]

/-- The answer of a call is what it puts in use. -/
theorem mem_tryCall (c : Call) : name ∈ (tryCall maxSuffix used c).2 ↔
    (tryCall maxSuffix used c).1 = .ok name ∨ name ∈ used := by
  cases c with
  | reserve other => simp [tryCall, eq_comm]
  | allocate base identity =>
      rw [tryCall_allocate]
      split <;> simp [eq_comm]

/-- A call that fails changes nothing. -/
theorem tryCall_failed (h : (tryCall maxSuffix used c).1 = .error error) :
    (tryCall maxSuffix used c).2 = used := by
  cases c with
  | reserve other => simp [tryCall] at h
  | allocate base identity =>
      rw [tryCall_allocate] at h ⊢
      split at h
      · simp at h
      · rfl

theorem candidates_append (base : String) {more : Nat} (h : maxSuffix ≤ more) :
    ∃ rest, candidates base more = candidates base maxSuffix ++ rest := by
  have hcount : more - 1 = (maxSuffix - 1) + (more - 1 - (maxSuffix - 1)) := by omega
  unfold candidates
  rw [hcount, ← List.range'_append_1, List.map_append]
  exact ⟨_, rfl⟩

/-- Where more numbers are allowed, a name is found where it was found before. -/
theorem tryCall_mono {more : Nat} (hmore : maxSuffix ≤ more)
    (h : ∀ error, (tryCall maxSuffix used c).1 ≠ .error error) :
    tryCall more used c = tryCall maxSuffix used c := by
  cases c with
  | reserve other => rfl
  | allocate base identity =>
      rw [tryCall_allocate] at h ⊢
      rw [tryCall_allocate]
      by_cases hbase : base = ""
      · rw [if_pos hbase, if_pos hbase]
      · obtain ⟨rest, hrest⟩ := candidates_append base hmore
        rw [if_neg hbase] at h ⊢
        rw [if_neg hbase, hrest, firstUnused?, List.find?_append]
        unfold firstUnused? at h ⊢
        cases hfind : (candidates base maxSuffix).find? fun name => name ∉ used with
        | some name => rfl
        | none =>
            rw [hfind] at h
            exact absurd rfl (h _)

/-! ### The allocator that remembers -/

/-- The first number that is found goes with the first name that is not in use. -/
theorem map_firstFree? {count : Nat} {start : Reached a base} :
    (a.firstFree? base count start).map (fun n => Naming.numbered base n.1) =
      firstUnused? a.taken ((List.range' start.1 count).map (Naming.numbered base)) := by
  unfold firstUnused?
  induction count generalizing start with
  | zero => rfl
  | succ count ih =>
      rw [List.range'_succ, List.map_cons]
      unfold firstFree?
      by_cases htaken : Naming.numbered base start.1 ∈ a.taken
      · rw [dif_pos htaken, ih, List.find?_cons_of_neg (by simpa using htaken)]
      · rw [dif_neg htaken, List.find?_cons_of_pos (by simpa using htaken)]
        rfl

/-- An allocator that has the given names in use, and goes on where a search can start. -/
structure Holds (a : NameAllocator) (maxSuffix : Nat) (used : List String) : Prop where
  limit : a.maxSuffix = maxSuffix
  taken : ∀ name, name ∈ a.taken ↔ name ∈ used
  next : ∀ base, 2 ≤ a.next base

theorem holds_empty (maxSuffix : Nat) : Holds (empty maxSuffix) maxSuffix [] :=
  ⟨rfl, fun _ => Iff.rfl, fun _ => le_rfl⟩

theorem firstUnused?_congr {others : List String} (h : ∀ name, name ∈ used ↔ name ∈ others)
    (names : List String) : firstUnused? used names = firstUnused? others names := by
  unfold firstUnused?
  simp only [h]

/-- What is skipped is in use, so going on finds what a search from the start finds. -/
theorem map_freeNumber? (h : 2 ≤ a.next base) :
    (a.freeNumber? base).map (fun n => Naming.numbered base n.1) =
      firstUnused? a.taken ((List.range' 2 (a.maxSuffix - 1)).map (Naming.numbered base)) := by
  have hskipped : ∀ count, 2 + count ≤ a.next base →
      firstUnused? a.taken ((List.range' 2 count).map (Naming.numbered base)) = none := by
    intro count hcount
    rw [firstUnused?_eq_none, List.forall_mem_map]
    intro k hk
    rw [List.mem_range'_1] at hk
    exact a.numbered_mem_taken base k hk.1 (by omega)
  have hfree : (a.freeNumber? base).map (fun n => Naming.numbered base n.1) =
      firstUnused? a.taken ((List.range' (a.next base) (a.maxSuffix + 1 - a.next base)).map
        (Naming.numbered base)) := map_firstFree?
  rw [hfree]
  by_cases hlimit : a.next base ≤ a.maxSuffix + 1
  · have hcount : a.maxSuffix - 1 = (a.next base - 2) + (a.maxSuffix + 1 - a.next base) := by omega
    have hnone := hskipped (a.next base - 2) (by omega)
    rw [hcount, ← List.range'_append_1, List.map_append]
    unfold firstUnused? at hnone ⊢
    rw [List.find?_append, hnone, Option.none_or, Nat.add_sub_cancel' h]
  · have hcount : a.maxSuffix + 1 - a.next base = 0 := by omega
    rw [hskipped _ (by omega), hcount]
    rfl

/-- **A request is answered as by trying one candidate after the other.** -/
theorem allocate_eq (h : 2 ≤ a.next base) (identity : String) :
    (a.allocate base identity).map Prod.fst =
      match if base = "" then none else firstUnused? a.taken (candidates base a.maxSuffix) with
      | some name => .ok name
      | none => .error (.nameCollision base identity) := by
  unfold allocate
  by_cases hbase : base = ""
  · rw [if_pos hbase, if_pos hbase]
    rfl
  rw [if_neg hbase, if_neg hbase]
  unfold candidates firstUnused?
  by_cases hfree : a.isFree base = true
  · rw [if_pos hfree, List.find?_cons_of_pos (by simpa using isFree_iff.mp hfree)]
    rfl
  · have htaken : base ∈ a.taken := by rwa [isFree_iff, not_not] at hfree
    have hnumber := map_freeNumber? h
    unfold firstUnused? at hnumber
    rw [if_neg hfree, List.find?_cons_of_neg (by simpa using htaken), ← hnumber]
    cases a.freeNumber? base <;> rfl

theorem le_of_firstFree? {count : Nat} {start found : Reached a base}
    (h : a.firstFree? base count start = some found) : start.1 ≤ found.1 := by
  induction count generalizing start with
  | zero => simp [firstFree?] at h
  | succ count ih =>
      unfold firstFree? at h
      split at h
      · exact Nat.le_of_succ_le (ih h)
      · rw [Option.some.inj h]

/-- The search goes on from 2 or later. -/
theorem next_allocate {after : NameAllocator} (h : ∀ base, 2 ≤ a.next base)
    (hok : a.allocate base identity = .ok (name, after)) (other : String) :
    2 ≤ after.next other := by
  unfold allocate at hok
  split at hok
  · simp at hok
  · split at hok
    · obtain ⟨-, rfl⟩ := Prod.mk.inj (Except.ok.inj hok)
      exact h other
    · split at hok
      · rename_i n hn
        obtain ⟨-, rfl⟩ := Prod.mk.inj (Except.ok.inj hok)
        have hnumber : a.next base ≤ n.1 := le_of_firstFree? hn
        show 2 ≤ if other = base then n.1 + 1 else a.next other
        split
        · exact (h base).trans (by omega)
        · exact h other
      · simp at hok

theorem call_allocate_cases (a : NameAllocator) (base identity : String) :
    (∃ name after, a.allocate base identity = .ok (name, after) ∧
      a.call (.allocate base identity) = (.ok name, after)) ∨
    ∃ error, a.allocate base identity = .error error ∧
      a.call (.allocate base identity) = (.error error, a) := by
  have hcall : a.call (.allocate base identity) =
      match a.allocate base identity with
      | .ok (name, next) => (.ok name, next)
      | .error error => (.error error, a) := rfl
  cases h : a.allocate base identity with
  | ok result => exact Or.inl ⟨result.1, result.2, rfl, by rw [hcall, h]⟩
  | error error => exact Or.inr ⟨error, rfl, by rw [hcall, h]⟩

/-- The answer of a call is what it puts in use. -/
theorem mem_taken_call (a : NameAllocator) (c : Call) (name : String) :
    name ∈ (a.call c).2.taken ↔ (a.call c).1 = .ok name ∨ name ∈ a.taken := by
  cases c with
  | reserve other =>
      show name ∈ other :: a.taken ↔ Except.ok other = .ok name ∨ name ∈ a.taken
      simp [eq_comm]
  | allocate base identity =>
      rcases call_allocate_cases a base identity with ⟨given, after, hok, hcall⟩ | ⟨error, -, hcall⟩
      · rw [hcall, (allocate_ok hok).2]
        simp [eq_comm]
      · simp [hcall]

/-- **One call keeps the two allocators in step**, and both answer the same. -/
theorem Holds.call (h : Holds a maxSuffix used) (c : Call) :
    (a.call c).1 = (tryCall maxSuffix used c).1 ∧
      Holds (a.call c).2 maxSuffix (tryCall maxSuffix used c).2 := by
  cases c with
  | reserve other =>
      refine ⟨rfl, h.limit, fun name => ?_, h.next⟩
      rw [mem_taken_call, mem_tryCall, h.taken]
      rfl
  | allocate base identity =>
      have hanswer := allocate_eq (h.next base) identity
      rw [h.limit, firstUnused?_congr h.taken] at hanswer
      have hsame : (a.call (.allocate base identity)).1 =
          (tryCall maxSuffix used (.allocate base identity)).1 := by
        rw [tryCall_allocate]
        rcases call_allocate_cases a base identity with
          ⟨given, after, hok, hcall⟩ | ⟨error, hok, hcall⟩
        all_goals
          rw [hok] at hanswer
          rw [hcall]
          refine hanswer.trans ?_
          split <;> rfl
      refine ⟨hsame, ?_, fun name => by rw [mem_taken_call, mem_tryCall, hsame, h.taken], ?_⟩
      all_goals
        rcases call_allocate_cases a base identity with
          ⟨given, after, hok, hcall⟩ | ⟨error, hok, hcall⟩
        all_goals rw [hcall]
      · exact (maxSuffix_of_allocate hok).trans h.limit
      · exact h.limit
      · exact next_allocate h.next hok
      · exact h.next

/-! ### Runs -/

section

variable {σ τ : Type} {step : σ → Call → Answer × σ} {s : σ}

/-- The answers to calls one after the other, and what is left. -/
def run (step : σ → Call → Answer × σ) (s : σ) : List Call → List Answer × σ
  | [] => ([], s)
  | c :: rest =>
    let (answer, next) := step s c
    let (answers, last) := run step next rest
    (answer :: answers, last)

theorem run_cons (c : Call) (rest : List Call) :
    run step s (c :: rest) =
      ((step s c).1 :: (run step (step s c).2 rest).1, (run step (step s c).2 rest).2) := rfl

/-- The answers up to a call are those to the calls up to it. -/
theorem take_run (calls : List Call) (i : Nat) :
    (run step s calls).1.take i = (run step s (calls.take i)).1 := by
  induction calls generalizing s i with
  | nil => simp [run]
  | cons c rest ih =>
      cases i with
      | zero => rfl
      | succ i =>
          show (step s c).1 :: (run step (step s c).2 rest).1.take i = _
          rw [ih]
          rfl

/-- A call is answered by what the calls before it left. -/
theorem getElem?_run (calls : List Call) (i : Nat) :
    (run step s calls).1[i]? = calls[i]?.map fun c => (step (run step s (calls.take i)).2 c).1 := by
  induction calls generalizing s i with
  | nil => rfl
  | cons c rest ih =>
      cases i with
      | zero => rfl
      | succ i => exact ih i

/-- One call more is made where the calls before it led. -/
theorem run_take_succ {calls : List Call} {i : Nat} {c : Call} (h : calls[i]? = some c) :
    (run step s (calls.take (i + 1))).2 = (step (run step s (calls.take i)).2 c).2 := by
  induction calls generalizing s i with
  | nil => simp at h
  | cons first rest ih =>
      cases i with
      | zero =>
          obtain rfl := Option.some.inj h
          rfl
      | succ i => exact ih h

/-- A call that changes nothing where it fails changes nothing in a run. -/
theorem run_failed_call (hstep : ∀ s c error, (step s c).1 = .error error → (step s c).2 = s)
    {calls : List Call} {i : Nat} {error : Error}
    (h : (run step s calls).1[i]? = some (.error error)) :
    (run step s (calls.take (i + 1))).2 = (run step s (calls.take i)).2 := by
  rw [getElem?_run, Option.map_eq_some_iff] at h
  obtain ⟨c, hc, hanswer⟩ := h
  rw [run_take_succ hc]
  exact hstep _ _ _ hanswer

/-- Two that stay in step answer the same. -/
theorem run_eq_of_step {other : τ → Call → Answer × τ} {t : τ} {R : σ → τ → Prop}
    (hstep : ∀ s t c, R s t → (step s c).1 = (other t c).1 ∧ R (step s c).2 (other t c).2)
    (h : R s t) (calls : List Call) :
    (run step s calls).1 = (run other t calls).1 ∧
      R (run step s calls).2 (run other t calls).2 := by
  induction calls generalizing s t with
  | nil => exact ⟨rfl, h⟩
  | cons c rest ih =>
      obtain ⟨hanswer, hnext⟩ := hstep s t c h
      obtain ⟨hanswers, hlast⟩ := ih hnext
      exact ⟨List.cons_eq_cons.mpr ⟨hanswer, hanswers⟩, hlast⟩

end

/-- **The allocator that remembers answers as the plain one.** -/
theorem run_call (maxSuffix : Nat) (calls : List Call) :
    (run call (empty maxSuffix) calls).1 = (run (tryCall maxSuffix) [] calls).1 :=
  (run_eq_of_step (R := fun a used => Holds a maxSuffix used) (fun _ _ c h => h.call c)
    (holds_empty maxSuffix) calls).1

theorem call_failed {a : NameAllocator} (h : (a.call c).1 = .error error) : (a.call c).2 = a := by
  cases c with
  | reserve other => simp [call] at h
  | allocate base identity =>
      rcases call_allocate_cases a base identity with ⟨given, after, -, hcall⟩ | ⟨error, -, hcall⟩
      · simp [hcall] at h
      · rw [hcall]

theorem mem_inUse {answers : List Answer} : name ∈ inUse answers ↔ .ok name ∈ answers := by
  unfold inUse
  rw [List.mem_filterMap]
  constructor
  · rintro ⟨answer, hanswer, hname⟩
    cases answer with
    | ok other =>
        obtain rfl := Option.some.inj hname
        exact hanswer
    | error error => simp [Except.toOption] at hname
  · exact fun h => ⟨_, h, rfl⟩

/-- What is in use after some calls is what was, and what their answers put in use. -/
theorem mem_run_tryCall (calls : List Call) : name ∈ (run (tryCall maxSuffix) used calls).2 ↔
    name ∈ inUse (run (tryCall maxSuffix) used calls).1 ∨ name ∈ used := by
  induction calls generalizing used with
  | nil => simp [run, inUse]
  | cons c rest ih =>
      have hrest : name ∈ (run (tryCall maxSuffix) (tryCall maxSuffix used c).2 rest).2 ↔
          name ∈ inUse (run (tryCall maxSuffix) (tryCall maxSuffix used c).2 rest).1 ∨
            name ∈ (tryCall maxSuffix used c).2 := ih
      rw [mem_tryCall, mem_inUse] at hrest
      rw [mem_inUse, run_cons, List.mem_cons, hrest, eq_comm (a := Except.ok name), or_assoc,
        or_left_comm]

/-- Without failures more numbers make no difference. -/
theorem run_tryCall_mono {more : Nat} (hmore : maxSuffix ≤ more) {calls : List Call}
    (h : ∀ error, .error error ∉ (run (tryCall maxSuffix) used calls).1) :
    run (tryCall more) used calls = run (tryCall maxSuffix) used calls := by
  induction calls generalizing used with
  | nil => rfl
  | cons c rest ih =>
      simp only [run_cons, List.mem_cons, not_or] at h
      have hfirst := tryCall_mono hmore fun error heq => (h error).1 heq.symm
      rw [run_cons, run_cons, hfirst, ih fun error => (h error).2]

/-- **Names are new whatever was asked before.** In every row of calls, a request is answered
with the first candidate that no call before put in use, and it fails exactly if its base is empty
or all candidates are in use; so it does not fail while there are fewer names in use than numbers
are allowed. No name is given that was given or kept out before. The answers are those of an
allocator that tries one candidate after the other, and there as here a call that fails changes
nothing. Where no call fails, allowing more numbers changes no answer. -/
theorem names_are_new (maxSuffix : Nat) (calls : List Call) :
    let answers := (run call (empty maxSuffix) calls).1
    let before := fun i => inUse (answers.take i)
    (∀ i base identity, calls[i]? = some (.allocate base identity) →
      (∀ name, answers[i]? = some (.ok name) ↔
        base ≠ "" ∧ firstUnused? (before i) (candidates base maxSuffix) = some name) ∧
      (∀ error, answers[i]? = some (.error error) ↔
        error = .nameCollision base identity ∧
          (base = "" ∨ ∀ name ∈ candidates base maxSuffix, name ∈ before i)) ∧
      (base ≠ "" → (before i).dedup.length < maxSuffix → ∃ name, answers[i]? = some (.ok name)) ∧
      ∀ name, answers[i]? = some (.ok name) → name ∉ before i) ∧
    (∀ i error, answers[i]? = some (.error error) →
      (run call (empty maxSuffix) (calls.take (i + 1))).2 =
        (run call (empty maxSuffix) (calls.take i)).2) ∧
    answers = (run (tryCall maxSuffix) [] calls).1 ∧
    (∀ i error, answers[i]? = some (.error error) →
      (run (tryCall maxSuffix) [] (calls.take (i + 1))).2 =
        (run (tryCall maxSuffix) [] (calls.take i)).2) ∧
    ((∀ error, .error error ∉ answers) →
      ∀ more, maxSuffix ≤ more → (run call (empty more) calls).1 = answers) := by
  intro answers before
  have hplain : answers = (run (tryCall maxSuffix) [] calls).1 := run_call maxSuffix calls
  refine ⟨fun i base identity hcall => ?_, fun i error => ?_, hplain, fun i error => ?_, ?_⟩
  · have hbefore : ∀ name, name ∈ (run (tryCall maxSuffix) [] (calls.take i)).2 ↔
        name ∈ before i := by
      intro name
      rw [mem_run_tryCall, ← take_run, ← hplain]
      simp [before]
    have hanswer : ∀ answer, answers[i]? = some answer ↔
        (tryCall maxSuffix (run (tryCall maxSuffix) [] (calls.take i)).2
          (.allocate base identity)).1 = answer := by
      intro answer
      rw [hplain, getElem?_run, hcall, Option.map_some, Option.some.injEq]
    have hgiven : ∀ name, answers[i]? = some (.ok name) ↔
        base ≠ "" ∧ firstUnused? (before i) (candidates base maxSuffix) = some name := by
      intro name
      rw [hanswer, tryCall_ok_iff, firstUnused?_congr hbefore]
    refine ⟨hgiven, fun error => ?_, fun hbase hfew => ?_, fun name hname => ?_⟩
    · rw [hanswer, tryCall_error_iff]
      simp only [hbefore]
    · simp only [hgiven]
      cases hfind : firstUnused? (before i) (candidates base maxSuffix) with
      | some name => exact ⟨name, hbase, rfl⟩
      | none =>
          have hall := firstUnused?_eq_none.mp hfind
          have hle := maxSuffix_le_length fun name hname => List.mem_dedup.mpr (hall name hname)
          exact absurd hfew (Nat.not_lt.mpr hle)
    · exact not_mem_of_firstUnused? ((hgiven name).mp hname).2
  · exact run_failed_call fun _ _ _ => call_failed
  · rw [hplain]
    exact run_failed_call fun _ _ _ => tryCall_failed
  · intro hok more hmore
    rw [hplain] at hok ⊢
    rw [run_call, run_tryCall_mono hmore hok]

/-- A name that is kept out and is a candidate, a request for which numbers are used up, and a base
that is a candidate of another. -/
def garage : List Call :=
  [.reserve "car2", .allocate "car" "a.json", .allocate "car" "b.json", .allocate "car" "c.json",
    .allocate "car3" "d.json"]

theorem names_are_new_garage :
    (run call (empty 3) garage).1[2]? = some (.ok "car3") ∧
    (run call (empty 3) garage).1[3]? = some (.error (.nameCollision "car" "c.json")) ∧
    (run call (empty 3) (garage.take 4)).2 = (run call (empty 3) (garage.take 3)).2 ∧
    (run call (empty 3) garage).1[4]? = some (.ok "car32") ∧
    (run call (empty 7) (garage.take 3)).1 = (run call (empty 3) (garage.take 3)).1 := by
  obtain ⟨hcalls, hfailed, -, -, -⟩ := names_are_new 3 garage
  obtain ⟨-, -, -, -, hmore⟩ := names_are_new 3 (garage.take 3)
  have hthird := (hcalls 2 "car" "b.json" rfl).1 "car3"
  have hfourth := (hcalls 3 "car" "c.json" rfl).2.1 (.nameCollision "car" "c.json")
  have hlast := (hcalls 4 "car3" "d.json" rfl).1 "car32"
  have hcollision := hfourth.mpr ⟨rfl, Or.inr (by decide +kernel)⟩
  refine ⟨hthird.mpr ⟨by decide, by decide +kernel⟩, hcollision, hfailed 3 _ hcollision,
    hlast.mpr ⟨by decide, by decide +kernel⟩, hmore (fun error hmem => ?_) 7 (by decide)⟩
  have hok : ∀ answer ∈ (run call (empty 3) (garage.take 3)).1, answer.isOk = true := by
    decide +kernel
  exact Bool.false_ne_true (hok _ hmem)

end NameAllocator

end SchemaBundle
