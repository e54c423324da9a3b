/-
What the search for shared definitions settles on.

Pruning throws out a candidate as soon as one of its requirements is offered by
nobody.  What is left when nothing changes any more is closed: every requirement is
offered by somebody who is left.  And it is the largest closed choice there is, since
a set of candidates that meet each other's requirements never loses a member: each of
them is supported as long as all of them are there.

When no key has two candidates left, the first candidates agree with each other, and
nothing has to be dropped for a conflict.
-/
import Mathlib.Data.List.Forall2
import SchemaBundle.Embed.Sharing
import SchemaBundle.Proofs.Entries

namespace SchemaBundle

namespace Sharing

variable {v : Candidates} {key name : String} {c : Candidate}

/-- A candidate of a key. -/
def Has (v : Candidates) (key : String) (c : Candidate) : Prop :=
  ∃ cs, (key, cs) ∈ v ∧ c ∈ cs

/-- No key has two candidates. -/
def Unambiguous (v : Candidates) : Prop :=
  ∀ key cs, (key, cs) ∈ v → cs.length ≤ 1

theorem mem_offers : (key, name) ∈ offers v ↔ ∃ c, Has v key c ∧ c.name = name := by
  unfold offers Has
  rw [List.mem_flatMap]
  constructor
  · rintro ⟨⟨k, cs⟩, hmem, h⟩
    obtain ⟨c, hc, heq⟩ := List.mem_map.mp h
    rw [Prod.mk.injEq] at heq
    exact ⟨c, ⟨cs, heq.1 ▸ hmem, hc⟩, heq.2⟩
  · rintro ⟨c, ⟨cs, hmem, hc⟩, rfl⟩
    exact ⟨(key, cs), hmem, List.mem_map.mpr ⟨c, hc, rfl⟩⟩

theorem supported_iff {offered : List (String × String)} :
    c.supported offered = true ↔ ∀ requirement ∈ c.requires, requirement ∈ offered := by
  simp [Candidate.supported]

/-! ### Pruning -/

theorem has_prune : Has (prune v) key c ↔ Has v key c ∧ c.supported (offers v) = true := by
  unfold Has prune
  constructor
  · rintro ⟨cs, hmem, hc⟩
    obtain ⟨⟨k, all⟩, hall, heq⟩ := List.mem_map.mp hmem
    rw [Prod.mk.injEq] at heq
    obtain ⟨rfl, rfl⟩ := heq
    obtain ⟨hin, hsup⟩ := List.mem_filter.mp hc
    exact ⟨⟨all, hall, hin⟩, hsup⟩
  · rintro ⟨⟨cs, hmem, hc⟩, hsup⟩
    exact ⟨_, List.mem_map.mpr ⟨(key, cs), hmem, rfl⟩, List.mem_filter.mpr ⟨hc, hsup⟩⟩

private theorem total_filter_le (p : Candidate → Bool) (v : Candidates) :
    total (v.map fun entry => (entry.1, entry.2.filter p)) ≤ total v := by
  induction v with
  | nil => exact Nat.le_refl _
  | cons entry rest ih =>
      have hlen := List.length_filter_le p entry.2
      simp only [List.map_cons, total]
      omega

/-- Pruning that drops nothing changes nothing. -/
private theorem filter_eq_of_total_le (p : Candidate → Bool) (v : Candidates)
    (h : total v ≤ total (v.map fun entry => (entry.1, entry.2.filter p))) :
    (v.map fun entry => (entry.1, entry.2.filter p)) = v := by
  induction v with
  | nil => rfl
  | cons entry rest ih =>
      have hlen := List.length_filter_le p entry.2
      have hrest := total_filter_le p rest
      simp only [List.map_cons, total] at h
      have hfilter : entry.2.filter p = entry.2 :=
        List.filter_sublist.eq_of_length (by omega)
      rw [List.map_cons, ih (by omega), hfilter]

theorem prune_settle (v : Candidates) : prune (settle v) = settle v := by
  fun_induction settle v with
  | case1 v next h ih => exact ih
  | case2 v next h => exact filter_eq_of_total_le _ v (Nat.not_lt.mp h)

theorem has_of_has_settle (h : Has (settle v) key c) : Has v key c := by
  fun_induction settle v with
  | case1 v next hlt ih => exact (has_prune.mp (ih h)).1
  | case2 => exact h

@[simp] theorem keys_settle (v : Candidates) : Entries.keys (settle v) = Entries.keys v := by
  fun_induction settle v with
  | case1 v next h ih => rw [ih]; simp [next, prune, Entries.keys]
  | case2 => rfl

/-- What is left of the candidates of a key is part of what there was. -/
theorem settle_sublist {cs : List Candidate} (h : (key, cs) ∈ settle v) :
    ∃ all, (key, all) ∈ v ∧ cs.Sublist all := by
  fun_induction settle v with
  | case1 v next hlt ih =>
      obtain ⟨some', hmem, hsub⟩ := ih h
      obtain ⟨⟨k, all⟩, hall, heq⟩ := List.mem_map.mp hmem
      rw [Prod.mk.injEq] at heq
      obtain ⟨rfl, rfl⟩ := heq
      exact ⟨all, hall, hsub.trans List.filter_sublist⟩
  | case2 => exact ⟨cs, h, List.Sublist.refl _⟩

/-- **What is left is closed**: every requirement is offered by somebody who is left. -/
theorem settle_closed (h : Has (settle v) key c) {sibling : String}
    (hreq : (sibling, name) ∈ c.requires) :
    ∃ c', Has (settle v) sibling c' ∧ c'.name = name := by
  rw [← prune_settle] at h
  exact mem_offers.mp (supported_iff.mp (has_prune.mp h).2 _ hreq)

/-- **What is left is the largest closed choice.** -/
theorem settle_greatest {T : String → Candidate → Prop} (hin : ∀ key c, T key c → Has v key c)
    (hclosed : ∀ key c, T key c → ∀ sibling name, (sibling, name) ∈ c.requires →
      ∃ c', T sibling c' ∧ c'.name = name) (h : T key c) : Has (settle v) key c := by
  fun_induction settle v with
  | case1 v next hlt ih =>
      refine ih fun key c hT => has_prune.mpr ⟨hin key c hT, supported_iff.mpr ?_⟩
      rintro ⟨sibling, name⟩ hreq
      obtain ⟨c', hc', hname⟩ := hclosed key c hT sibling name hreq
      exact mem_offers.mpr ⟨c', hin _ _ hc', hname⟩
  | case2 => exact hin key c h

/-- What is left depends on the candidates only, and not on the order they stand in. -/
theorem has_settle_congr {v' : Candidates} (h : ∀ key c, Has v key c ↔ Has v' key c) :
    Has (settle v) key c ↔ Has (settle v') key c := by
  constructor
  · refine settle_greatest (fun key c hc => (h key c).mp (has_of_has_settle hc)) ?_
    exact fun key c hc sibling name hreq => settle_closed hc hreq
  · refine settle_greatest (fun key c hc => (h key c).mpr (has_of_has_settle hc)) ?_
    exact fun key c hc sibling name hreq => settle_closed hc hreq

/-- No key has two candidates, if those of a key have different names and also the same. -/
theorem unambiguous_of_names (hnd : ∀ key cs, (key, cs) ∈ v → (cs.map (·.name)).Nodup)
    (hsame : ∀ key a b, Has v key a → Has v key b → a.name = b.name) : Unambiguous v := by
  intro key cs hcs
  have hnd := hnd key cs hcs
  match cs, hcs, hnd with
  | [], _, _ => exact Nat.zero_le _
  | [_], _, _ => exact Nat.le_refl _
  | a :: b :: rest, hcs, hnd =>
      have heq : a.name = b.name := hsame key a b ⟨_, hcs, List.mem_cons_self⟩
        ⟨_, hcs, List.mem_cons_of_mem _ List.mem_cons_self⟩
      simp [heq] at hnd

/-! ### Choosing -/

theorem get?_firstChoices (hnd : (Entries.keys v).Nodup) (hun : Unambiguous v) :
    Entries.get? (firstChoices v) key = some name ↔ ∃ c, Has v key c ∧ c.name = name := by
  induction v with
  | nil => simp [firstChoices, Has]
  | cons entry rest ih =>
      obtain ⟨k, cs⟩ := entry
      obtain ⟨hk, hrest⟩ := List.nodup_cons.mp hnd
      have ih := ih hrest fun key cs h => hun key cs (List.mem_cons_of_mem _ h)
      have hlen := hun k cs List.mem_cons_self
      have hhas : ∀ c, Has ((k, cs) :: rest) key c ↔ (k = key ∧ c ∈ cs) ∨ Has rest key c := by
        intro c
        unfold Has
        constructor
        · rintro ⟨cs', hmem, hc⟩
          rcases List.mem_cons.mp hmem with heq | hmem
          · obtain ⟨rfl, rfl⟩ := Prod.mk.inj heq
            exact Or.inl ⟨rfl, hc⟩
          · exact Or.inr ⟨cs', hmem, hc⟩
        · rintro (⟨rfl, hc⟩ | ⟨cs', hmem, hc⟩)
          · exact ⟨cs, List.mem_cons_self, hc⟩
          · exact ⟨cs', List.mem_cons_of_mem _ hmem, hc⟩
      simp only [hhas]
      match cs, hlen with
      | [], _ =>
          show Entries.get? (firstChoices rest) key = some name ↔ _
          rw [ih]
          simp
      | [c], _ =>
          show Entries.get? ((k, c.name) :: firstChoices rest) key = some name ↔ _
          rw [Entries.get?_cons]
          by_cases hkey : k = key
          · subst hkey
            have hnone : ∀ c, ¬ Has rest k c := fun c hc =>
              hk (List.mem_map.mpr ⟨_, hc.choose_spec.1, rfl⟩)
            simp [hnone]
          · rw [if_neg hkey, ih]
            simp [hkey]

theorem conflict?_eq_none {chosen : List (String × String)}
    (h : ∀ key c, Has v key c → c.agrees chosen = true) : conflict? chosen v = none := by
  induction v with
  | nil => rfl
  | cons entry rest ih =>
      obtain ⟨k, cs⟩ := entry
      have hrest : conflict? chosen rest = none :=
        ih fun key c ⟨cs', hmem, hc⟩ => h key c ⟨cs', List.mem_cons_of_mem _ hmem, hc⟩
      cases cs with
      | nil => exact hrest
      | cons c cs =>
          rw [conflict?, if_pos (h k c ⟨_, List.mem_cons_self, List.mem_cons_self⟩), hrest]

/-- Where no key has two candidates left, no first candidate disagrees with another. -/
theorem conflict?_settle (hnd : (Entries.keys v).Nodup) (hun : Unambiguous (settle v)) :
    conflict? (firstChoices (settle v)) (settle v) = none := by
  refine conflict?_eq_none fun key c hc => ?_
  unfold Candidate.agrees
  rw [List.all_eq_true]
  rintro ⟨sibling, name⟩ hreq
  rw [beq_iff_eq, get?_firstChoices (by rwa [keys_settle]) hun]
  exact settle_closed hc hreq

/-- The names that are shared, where no key has two candidates left. -/
theorem get?_resolve (hnd : (Entries.keys v).Nodup) (hun : Unambiguous (settle v)) :
    Entries.get? (resolve v) key = some name ↔ ∃ c, Has (settle v) key c ∧ c.name = name := by
  have hresolve : resolve v = firstChoices (settle v) := by
    rw [resolve]
    have hnone := conflict?_settle hnd hun
    split
    · rfl
    · rename_i hsome
      rw [hnone] at hsome
      simp at hsome
  rw [hresolve, get?_firstChoices (by rwa [keys_settle]) hun]

end Sharing

end SchemaBundle
