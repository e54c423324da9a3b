/-
Names that are handed out are new, and there are names enough.

The allocator holds one set of names for everything: names kept out from the start,
names of documents, and names of definitions.  A request looks its candidates up in
that set, so whichever candidate it settles on was not there, and from then on is.

The candidates of a name are as many as the largest number allows, and no two of them are
the same.  So a request fails only for the empty name, or when that many names are in use.
-/
import Mathlib.Data.List.Nodup
import SchemaBundle.Proofs.Entries
import SchemaBundle.Naming

namespace SchemaBundle

/-! ### Names with numbers -/

namespace Naming

theorem toList_numbered (base : String) (n : Nat) :
    (numbered base n).toList = base.toList ++ Nat.toDigits 10 n := by
  rw [numbered, String.toList_append, String.toList_ofList]

theorem numbered_injective (base : String) : Function.Injective (numbered base) := by
  intro m n h
  have hlists := congrArg String.toList h
  rw [toList_numbered, toList_numbered] at hlists
  have hdigits := congrArg (Nat.ofDigitChars 10 · 0) (List.append_cancel_left hlists)
  simpa using hdigits

theorem numbered_ne (base : String) (n : Nat) : numbered base n ≠ base := by
  intro h
  have hlists := congrArg String.toList h
  rw [toList_numbered, List.append_right_eq_self] at hlists
  exact Nat.toDigits_ne_nil hlists

/-- A name that is given for another: that name, or it with a number. -/
def Variant (base name : String) : Prop :=
  name = base ∨ ∃ n, name = numbered base n

/-- A name that does not end in a digit is given for itself only. -/
theorem Variant.eq_of_last {base name : String} {last : Char} (h : Variant base name)
    (hlast : name.toList.getLast? = some last) (hdigit : last.isDigit = false) : base = name := by
  rcases h with rfl | ⟨n, rfl⟩
  · rfl
  · rw [toList_numbered, List.getLast?_append_of_ne_nil _ Nat.toDigits_ne_nil] at hlast
    have hmem := List.mem_of_getLast? hlast
    rw [Nat.isDigit_of_mem_toDigits (by decide) (by decide) hmem] at hdigit
    simp at hdigit

end Naming

namespace NameAllocator

variable {a a' : NameAllocator} {base identity name : String}

theorem isFree_iff : a.isFree name = true ↔ name ∉ a.taken := by
  simp [isFree]

private theorem firstFree?_not_mem {count : Nat} {start found : Reached a base}
    (h : a.firstFree? base count start = some found) :
    Naming.numbered base found.1 ∉ a.taken := by
  induction count generalizing start with
  | zero => simp [firstFree?] at h
  | succ count ih =>
      unfold firstFree? at h
      split at h
      · exact ih h
      · rename_i hfree
        rw [← Option.some.inj h]
        exact hfree

/-- A name that is handed out was not in use, and is the one that gets into use. -/
theorem allocate_ok (h : a.allocate base identity = .ok (name, a')) :
    name ∉ a.taken ∧ a'.taken = name :: a.taken := by
  unfold allocate at h
  split at h
  · simp at h
  · split at h
    · rename_i hfree
      obtain ⟨rfl, rfl⟩ := Prod.mk.inj (Except.ok.inj h)
      exact ⟨isFree_iff.mp hfree, rfl⟩
    · split at h
      · rename_i n hn
        obtain ⟨rfl, rfl⟩ := Prod.mk.inj (Except.ok.inj h)
        exact ⟨firstFree?_not_mem hn, rfl⟩
      · simp at h

/-- A name is handed out for the one that was asked for. -/
theorem variant_of_allocate (h : a.allocate base identity = .ok (name, a')) :
    Naming.Variant base name := by
  unfold allocate at h
  split at h
  · simp at h
  · split at h
    · obtain ⟨rfl, -⟩ := Prod.mk.inj (Except.ok.inj h)
      exact Or.inl rfl
    · split at h
      · rename_i n hn
        obtain ⟨rfl, -⟩ := Prod.mk.inj (Except.ok.inj h)
        exact Or.inr ⟨n.1, rfl⟩
      · simp at h

theorem maxSuffix_of_allocate (h : a.allocate base identity = .ok (name, a')) :
    a'.maxSuffix = a.maxSuffix := by
  unfold allocate at h
  split at h
  · simp at h
  · split at h
    · obtain ⟨-, rfl⟩ := Prod.mk.inj (Except.ok.inj h)
      rfl
    · split at h
      · obtain ⟨-, rfl⟩ := Prod.mk.inj (Except.ok.inj h)
        rfl
      · simp at h

theorem mem_reserveAll_taken {names : List String} :
    name ∈ (a.reserveAll names).taken ↔ name ∈ names ∨ name ∈ a.taken := by
  induction names generalizing a with
  | nil => simp [reserveAll]
  | cons first rest ih =>
      show name ∈ ((a.reserve first).reserveAll rest).taken ↔ _
      rw [ih]
      show name ∈ rest ∨ name ∈ first :: a.taken ↔ _
      rw [List.mem_cons, List.mem_cons, ← or_assoc, or_comm (a := name ∈ rest)]

theorem maxSuffix_reserveAll (a : NameAllocator) (names : List String) :
    (a.reserveAll names).maxSuffix = a.maxSuffix := by
  induction names generalizing a with
  | nil => rfl
  | cons first rest ih => exact ih (a.reserve first)

/-! ### Requests that fail -/

/-- What is tried for a name, in order: the name itself, then the name with each number. -/
def candidates (base : String) (maxSuffix : Nat) : List String :=
  base :: (List.range' 2 (maxSuffix - 1)).map (Naming.numbered base)

theorem candidates_nodup (base : String) (maxSuffix : Nat) :
    (candidates base maxSuffix).Nodup := by
  rw [candidates, List.nodup_cons]
  refine ⟨fun hmem => ?_, (List.nodup_range' 1).map (Naming.numbered_injective base)⟩
  obtain ⟨n, -, hn⟩ := List.mem_map.mp hmem
  exact Naming.numbered_ne base n hn

theorem le_length_candidates (base : String) (maxSuffix : Nat) :
    maxSuffix ≤ (candidates base maxSuffix).length := by
  rw [candidates, List.length_cons, List.length_map, List.length_range']
  omega

private theorem firstFree?_eq_none {count : Nat} {start : Reached a base}
    (h : a.firstFree? base count start = none) :
    ∀ k, 2 ≤ k → k < start.1 + count → Naming.numbered base k ∈ a.taken := by
  induction count generalizing start with
  | zero => exact start.2
  | succ count ih =>
      unfold firstFree? at h
      split at h
      · intro k low high
        exact ih h k low (by simp only; omega)
      · simp at h

/-- A request fails for the empty name only, or when everything that is tried is in use. -/
theorem allocate_error_cases {error : Error} (h : a.allocate base identity = .error error) :
    error = .nameCollision base identity ∧
      (base = "" ∨ ∀ name ∈ candidates base a.maxSuffix, name ∈ a.taken) := by
  unfold allocate at h
  split at h
  · rename_i hempty
    exact ⟨(Except.error.inj h).symm, Or.inl hempty⟩
  · split at h
    · simp at h
    · rename_i htaken
      split at h
      · simp at h
      · rename_i hnone
        refine ⟨(Except.error.inj h).symm, Or.inr fun name hname => ?_⟩
        have hnumbers := firstFree?_eq_none hnone
        rw [candidates, List.mem_cons, List.mem_map] at hname
        rcases hname with rfl | ⟨k, hk, rfl⟩
        · rwa [isFree_iff, not_not] at htaken
        · rw [List.mem_range'_1] at hk
          exact hnumbers k hk.1 (by simp only; omega)

/-- Names among which are all candidates are as many as the largest number is. -/
theorem maxSuffix_le_length {maxSuffix : Nat} {used : List String}
    (h : ∀ name ∈ candidates base maxSuffix, name ∈ used) : maxSuffix ≤ used.length :=
  calc maxSuffix
      ≤ (candidates base maxSuffix).length := le_length_candidates base maxSuffix
    _ ≤ used.length := (candidates_nodup base maxSuffix).length_le_of_subset h

/-- **There are names enough**: a request that fails for a name that is not empty finds as
many names in use as the largest number is. -/
theorem maxSuffix_le_of_allocate_error {error : Error} {used : List String}
    (h : a.allocate base identity = .error error) (hbase : base ≠ "")
    (hused : ∀ name ∈ a.taken, name ∈ used) : a.maxSuffix ≤ used.length := by
  have hall := (allocate_error_cases h).2.resolve_left hbase
  exact maxSuffix_le_length fun name hname => hused name (hall name hname)

end NameAllocator

end SchemaBundle
