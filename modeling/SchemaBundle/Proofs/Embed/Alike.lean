/-
Definitions of different documents that mean the same.

Two documents may each have a definition under one key.  The two mean the same when
their contents are equal and every reference in them leads to the same place, where a
sibling counts as the same place when the two siblings mean the same in turn.  Siblings
may refer to each other in circles, so the relation is the largest one with that
property: a set of keys, closed under what the contents refer to, that holds the key in
question.

The relation is symmetric and transitive, and that is all that is used of it.  What the
search requires of a candidate, reference by reference, is exactly one round of it.
-/
import Mathlib.Data.Set.Basic
import SchemaBundle.Proofs.Embed.Record
import SchemaBundle.Proofs.Sharing

namespace SchemaBundle

namespace Embedder

variable {e : Embedder} {A B C : List (String × Json)} {i j k key raw : String}
  {S T : Set String}

/-! ### The relation -/

/-- A reference text leads to the same place from two documents, if the definitions
under the keys in `S` are the same places.  A text that is no reference leads nowhere. -/
def SameTarget (e : Embedder) (S : Set String) (i j raw : String) : Prop :=
  match e.readLink raw with
  | .ok .keep => True
  | .ok (.outside url _) => Identity.resolve (some i) url = Identity.resolve (some j) url
  | .ok (.inside pointer) => ∃ key rest, e.mount.below? pointer = some (key, rest) ∧ key ∈ S
  | .error _ => False

/-- The definitions of two documents under the keys in `S` bear each other out: equal
contents, and references that lead to the same places. -/
def Alike (e : Embedder) (A B : List (String × Json)) (i j : String) (S : Set String) : Prop :=
  ∀ key ∈ S, ∃ v w, Entries.get? A key = some v ∧ Entries.get? B key = some w ∧
    (v == w) = true ∧ ∀ raw ∈ v.refs, e.SameTarget S i j raw

theorem SameTarget.symm (h : e.SameTarget S i j raw) : e.SameTarget S j i raw := by
  unfold SameTarget at h ⊢
  cases hlink : e.readLink raw with
  | error error => rw [hlink] at h; exact h
  | ok link =>
      rw [hlink] at h
      cases link with
      | keep => trivial
      | inside pointer => exact h
      | outside url pointer => exact h.symm

theorem SameTarget.trans (h : e.SameTarget S i j raw) (h' : e.SameTarget T j k raw) :
    e.SameTarget (S ∩ T) i k raw := by
  unfold SameTarget at h h' ⊢
  cases hlink : e.readLink raw with
  | error error => rw [hlink] at h; exact h
  | ok link =>
      rw [hlink] at h h'
      cases link with
      | keep => trivial
      | inside pointer =>
          obtain ⟨key, rest, hbelow, hS⟩ := h
          obtain ⟨key', rest', hbelow', hT⟩ := h'
          rw [hbelow, Option.some.injEq, Prod.mk.injEq] at hbelow'
          exact ⟨key, rest, hbelow, hS, hbelow'.1 ▸ hT⟩
      | outside url pointer => exact Eq.trans h h'

theorem Alike.symm (h : e.Alike A B i j S) : e.Alike B A j i S := by
  intro key hkey
  obtain ⟨v, w, hv, hw, heq, hrefs⟩ := h key hkey
  refine ⟨w, v, hw, hv, BEq.symm heq, fun raw hraw => (hrefs raw ?_).symm⟩
  rwa [Json.refs_eq_of_beq heq]

theorem Alike.trans (h : e.Alike A B i j S) (h' : e.Alike B C j k T) :
    e.Alike A C i k (S ∩ T) := by
  rintro key ⟨hS, hT⟩
  obtain ⟨v, w, hv, hw, heq, hrefs⟩ := h key hS
  obtain ⟨w', x, hw', hx, heq', hrefs'⟩ := h' key hT
  obtain rfl := Option.some.inj (hw.symm.trans hw')
  refine ⟨v, x, hv, hx, BEq.trans heq heq', fun raw hraw => ?_⟩
  exact (hrefs raw hraw).trans (hrefs' raw (Json.refs_eq_of_beq heq ▸ hraw))

/-! ### What the search requires -/

/-- **A requirement is one round of the relation**: a reference is acceptable when it
leads to the same place from both documents, and a sibling has to have the name that it
has for the owner. -/
theorem requirement?_eq_some {owner : String} {keys : List String}
    {names : List (String × String)} {q : Option (String × String)} :
    Context.requirement? e.refTarget i keys owner names raw = some q ↔
      match e.readLink raw with
      | .ok .keep => q = none
      | .ok (.outside url _) =>
        Identity.resolve (some i) url = Identity.resolve (some owner) url ∧ q = none
      | .ok (.inside pointer) => ∃ key rest name, e.mount.below? pointer = some (key, rest) ∧
        key ∈ keys ∧ Entries.get? names key = some name ∧ q = some (key, name)
      | .error _ => False := by
  unfold Context.requirement? refTarget
  cases e.readLink raw with
  | error error => simp
  | ok link =>
      cases link with
      | keep => simp [eq_comm]
      | outside url pointer =>
          simp only [String.append_left_inj]
          by_cases h : Identity.resolve (some i) url = Identity.resolve (some owner) url
          · simp [h, eq_comm]
          · simp [h]
      | inside pointer =>
          cases hbelow : e.mount.below? pointer with
          | none => simp [hbelow]
          | some found =>
              obtain ⟨key, rest⟩ := found
              simp only [hbelow]
              by_cases hkey : key ∈ keys
              · cases hname : Entries.get? names key with
                | none => simp [hkey, hname]
                | some name => simp [hkey, hname, eq_comm]
              · simp only [List.contains_iff_mem, hkey, if_false]
                simp [hkey]

private theorem mapM_eq_some_iff {α β : Type} {f : α → Option β} {xs : List α} {ys : List β} :
    xs.mapM f = some ys ↔ List.Forall₂ (fun x y => f x = some y) xs ys := by
  induction xs generalizing ys with
  | nil => simp [eq_comm]
  | cons x xs ih =>
      rw [List.mapM_cons]
      cases hx : f x with
      | none =>
          refine ⟨fun h => by simp at h, fun h => ?_⟩
          cases h with
          | cons hxy _ => simp [hx] at hxy
      | some y =>
          cases ys with
          | nil => cases xs.mapM f <;> simp
          | cons z zs =>
              rw [List.forall₂_cons, ← ih, hx]
              cases xs.mapM f with
              | none => simp
              | some rest => simp

/-- A candidate for a definition: an equal definition that some document offers, all of
whose references are acceptable. -/
theorem mem_shareCandidates {c : Context} {target : String → String → RefTarget}
    {keys : List String} {content : Json} {cand : Sharing.Candidate} :
    cand ∈ c.shareCandidates target i keys key content ↔
      ∃ h ∈ c.hoistedAt key, (h.content == content) = true ∧
        ∃ owner, c.resource? h.owner = some owner ∧
          ∃ reqs, List.Forall₂ (fun raw q =>
              Context.requirement? target i keys h.owner owner.localNames raw = some q)
              content.refs reqs ∧
            cand = ⟨h.name, reqs.filterMap id⟩ := by
  unfold Context.shareCandidates
  simp only [List.mem_filterMap, List.mem_filter, and_assoc]
  refine exists_congr fun h => and_congr_right fun _ => and_congr_right fun _ => ?_
  cases c.resource? h.owner with
  | none => simp
  | some owner =>
      simp only [← mapM_eq_some_iff, Option.bind_eq_bind, Option.bind_some,
        Option.bind_eq_some_iff, Option.pure_def, Option.some.injEq, exists_eq_left']
      exact exists_congr fun reqs => and_congr_right fun _ => eq_comm

theorem has_viable {c : Context} {target : String → String → RefTarget}
    {cand : Sharing.Candidate} :
    Sharing.Has (c.viable target i A) key cand ↔
      ∃ content, (key, content) ∈ A ∧
        cand ∈ c.shareCandidates target i (Entries.keys A) key content := by
  unfold Sharing.Has Context.viable
  simp only [List.mem_filter, List.mem_map]
  constructor
  · rintro ⟨cs, ⟨⟨⟨k, content⟩, hmem, heq⟩, -⟩, hcand⟩
    obtain ⟨rfl, rfl⟩ := Prod.mk.inj heq
    exact ⟨content, hmem, hcand⟩
  · rintro ⟨content, hmem, hcand⟩
    refine ⟨_, ⟨⟨(key, content), hmem, rfl⟩, ?_⟩, hcand⟩
    rw [Bool.not_eq_true', List.isEmpty_eq_false_iff]
    exact List.ne_nil_of_mem hcand

theorem keys_viable_nodup {c : Context} {target : String → String → RefTarget}
    (h : (Entries.keys A).Nodup) : (Entries.keys (c.viable target i A)).Nodup := by
  have hsub : (Entries.keys (c.viable target i A)).Sublist (Entries.keys A) := by
    unfold Context.viable Entries.keys
    refine (List.filter_sublist.map _).trans ?_
    rw [List.map_map]
    exact List.Sublist.refl _
  exact h.sublist hsub

/-- The candidates of a key are the offers under it, without some. -/
theorem candidateNames_sublist {c : Context} {target : String → String → RefTarget}
    {cs : List Sharing.Candidate} (h : (key, cs) ∈ c.viable target i A) :
    (cs.map (·.name)).Sublist ((c.hoistedAt key).map (·.name)) := by
  unfold Context.viable at h
  obtain ⟨⟨k, content⟩, -, heq⟩ := List.mem_map.mp (List.mem_filter.mp h).1
  obtain ⟨rfl, rfl⟩ := Prod.mk.inj heq
  have hsub : ∀ (f : Hoisted → Option Sharing.Candidate), (∀ h cand, f h = some cand →
      cand.name = h.name) → ∀ hs : List Hoisted,
      ((hs.filterMap f).map (·.name)).Sublist (hs.map (·.name)) := by
    intro f hf hs
    induction hs with
    | nil => exact List.Sublist.refl _
    | cons h rest ih =>
        cases hcand : f h with
        | none =>
            rw [List.filterMap_cons_none hcand]
            exact ih.cons _
        | some cand =>
            rw [List.filterMap_cons_some hcand, List.map_cons, List.map_cons, hf h cand hcand]
            exact ih.cons_cons _
  unfold Context.shareCandidates
  refine (hsub _ (fun h cand hcand => ?_) _).trans (List.filter_sublist.map _)
  simp only [Option.bind_eq_bind, Option.bind_eq_some_iff] at hcand
  obtain ⟨owner, -, reqs, -, hcand⟩ := hcand
  rw [← Option.some.inj hcand]

end Embedder

end SchemaBundle
