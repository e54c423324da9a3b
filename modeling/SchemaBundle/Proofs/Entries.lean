/-
Association lists as maps.

Everything above this file reads a list of entries through `get?`, so what is needed
is how `get?` sees each operation.  Setting a key never disturbs another one, whatever
the order of the list; the order matters in two places only.  A sorted list has no key
twice, and that is what lets a whole list be added without the order of the additions
showing.
-/
import Mathlib.Data.String.Basic
import Mathlib.Data.List.Nodup
import SchemaBundle.Entries

namespace SchemaBundle

namespace Entries

variable {α β : Type} {entries front back : List (String × α)} {key k : String} {value : α}

/-! ### Reading -/

@[simp] theorem get?_nil (key : String) : get? ([] : List (String × α)) key = none := rfl

theorem get?_cons (k key : String) (value : α) (entries : List (String × α)) :
    get? ((k, value) :: entries) key = if k = key then some value else get? entries key := rfl

@[simp] theorem keys_nil : keys ([] : List (String × α)) = [] := rfl

@[simp] theorem keys_cons (entry : String × α) (entries : List (String × α)) :
    keys (entry :: entries) = entry.1 :: keys entries := rfl

theorem mem_of_get? (h : get? entries key = some value) : (key, value) ∈ entries := by
  induction entries with
  | nil => simp at h
  | cons entry rest ih =>
      obtain ⟨k, v⟩ := entry
      rw [get?_cons] at h
      split at h
      · rename_i hk
        rw [Option.some.injEq] at h
        rw [hk, h]
        exact List.mem_cons_self
      · exact List.mem_cons_of_mem _ (ih h)

theorem mem_keys_of_get? (h : get? entries key = some value) : key ∈ keys entries :=
  List.mem_map.mpr ⟨_, mem_of_get? h, rfl⟩

theorem isSome_get?_iff : (get? entries key).isSome ↔ key ∈ keys entries := by
  induction entries with
  | nil => simp
  | cons entry rest ih =>
      obtain ⟨k, v⟩ := entry
      rw [get?_cons, keys_cons, List.mem_cons]
      by_cases hk : k = key
      · simp [hk]
      · rw [if_neg hk, ih]
        exact ⟨Or.inr, fun h => h.resolve_left fun hc => hk hc.symm⟩

theorem get?_eq_none_iff : get? entries key = none ↔ key ∉ keys entries := by
  rw [← isSome_get?_iff, Option.not_isSome_iff_eq_none]

/-- Where no key stands twice, an entry is what its key reads. -/
theorem get?_of_mem (hnd : (keys entries).Nodup) (h : (key, value) ∈ entries) :
    get? entries key = some value := by
  induction entries with
  | nil => simp at h
  | cons entry rest ih =>
      obtain ⟨k, v⟩ := entry
      rw [keys_cons, List.nodup_cons] at hnd
      rw [get?_cons]
      rcases List.mem_cons.mp h with heq | hrest
      · rw [Prod.mk.injEq] at heq
        rw [if_pos heq.1.symm, heq.2]
      · have hne : k ≠ key := by
          rintro rfl
          exact hnd.1 (List.mem_map.mpr ⟨_, hrest, rfl⟩)
        rw [if_neg hne]
        exact ih hnd.2 hrest

theorem get?_mapValues (f : α → β) (entries : List (String × α)) (key : String) :
    get? (mapValues f entries) key = (get? entries key).map f := by
  induction entries with
  | nil => rfl
  | cons entry rest ih =>
      obtain ⟨k, v⟩ := entry
      show get? ((k, f v) :: mapValues f rest) key = _
      rw [get?_cons, get?_cons]
      split
      · rfl
      · exact ih

@[simp] theorem keys_mapValues (f : α → β) (entries : List (String × α)) :
    keys (mapValues f entries) = keys entries := by
  simp [keys, mapValues]

/-! ### Setting and removing -/

theorem get?_insert (key : String) (value : α) (entries : List (String × α)) (k : String) :
    get? (insert key value entries) k = if key = k then some value else get? entries k := by
  induction entries with
  | nil => rfl
  | cons entry rest ih =>
      obtain ⟨l, v⟩ := entry
      rw [insert]
      split
      · rename_i hl
        rw [get?_cons, get?_cons, hl]
        split <;> rfl
      · rename_i hl
        split
        · rw [get?_cons]
        · rw [get?_cons, ih, get?_cons]
          by_cases hlk : l = k
          · rw [if_pos hlk, if_neg (fun hc => hl (hlk.trans hc.symm)), if_pos hlk]
          · rw [if_neg hlk, if_neg hlk]

@[simp] theorem get?_insert_self (key : String) (value : α) (entries : List (String × α)) :
    get? (insert key value entries) key = some value := by
  rw [get?_insert, if_pos rfl]

theorem get?_insert_ne (h : key ≠ k) : get? (insert key value entries) k = get? entries k := by
  rw [get?_insert, if_neg h]

theorem mem_keys_insert : k ∈ keys (insert key value entries) ↔ k = key ∨ k ∈ keys entries := by
  rw [← isSome_get?_iff, ← isSome_get?_iff, get?_insert]
  by_cases h : key = k
  · simp [h]
  · simp [h, Ne.symm h]

theorem mem_insert {entry : String × α} (h : entry ∈ insert key value entries) :
    entry = (key, value) ∨ entry ∈ entries := by
  induction entries with
  | nil => exact Or.inl (by simpa [insert] using h)
  | cons first rest ih =>
      obtain ⟨l, v⟩ := first
      rw [insert] at h
      split at h
      · exact (List.mem_cons.mp h).imp_right (List.mem_cons_of_mem _)
      · split at h
        · exact List.mem_cons.mp h
        · rcases List.mem_cons.mp h with rfl | h
          · exact Or.inr List.mem_cons_self
          · exact (ih h).imp_right (List.mem_cons_of_mem _)

theorem get?_erase_ne (h : key ≠ k) : get? (erase entries key) k = get? entries k := by
  induction entries with
  | nil => rfl
  | cons first rest ih =>
      obtain ⟨l, v⟩ := first
      rw [erase]
      split
      · rename_i hl
        rw [get?_cons, if_neg (hl ▸ h)]
      · rw [get?_cons, get?_cons, ih]

/-- To set a key again to its value changes nothing. -/
theorem insert_insert (key : String) (value : α) (entries : List (String × α)) :
    insert key value (insert key value entries) = insert key value entries := by
  induction entries with
  | nil => rw [insert, insert, if_pos rfl]
  | cons first rest ih =>
      obtain ⟨k, old⟩ := first
      rw [insert]
      by_cases heq : k = key
      · rw [if_pos heq, insert, if_pos rfl]
      · rw [if_neg heq]
        by_cases hlt : key < k
        · rw [if_pos hlt, insert, if_pos rfl]
        · rw [if_neg hlt, insert, if_neg heq, if_neg hlt, ih]

theorem erase_of_get?_eq_none (h : get? entries key = none) : erase entries key = entries := by
  induction entries with
  | nil => rfl
  | cons first rest ih =>
      obtain ⟨l, v⟩ := first
      rw [get?_cons] at h
      by_cases hl : l = key
      · rw [if_pos hl] at h
        simp at h
      · rw [if_neg hl] at h
        rw [erase, if_neg hl, ih h]

/-- A key that was set and removed again leaves no trace. -/
theorem erase_insert (h : get? entries key = none) (value : α) :
    erase (insert key value entries) key = entries := by
  induction entries with
  | nil => rw [insert, erase, if_pos rfl]
  | cons first rest ih =>
      obtain ⟨l, v⟩ := first
      rw [get?_cons] at h
      split at h
      · simp at h
      · rename_i hl
        rw [insert, if_neg hl]
        split
        · rw [erase, if_pos rfl]
        · rw [erase, if_neg hl, ih h]

theorem erase_sublist (entries : List (String × α)) (key : String) :
    (erase entries key).Sublist entries := by
  induction entries with
  | nil => exact List.Sublist.refl _
  | cons first rest ih =>
      obtain ⟨l, v⟩ := first
      rw [erase]
      split
      · exact List.sublist_cons_self _ _
      · exact ih.cons_cons _

theorem mem_of_mem_erase {entry : String × α} (h : entry ∈ erase entries key) :
    entry ∈ entries :=
  (erase_sublist entries key).mem h

/-! ### Key order -/

instance (entries : List (String × α)) : Decidable (Sorted entries) :=
  inferInstanceAs (Decidable (entries.Pairwise fun x y => x.1 < y.1))

theorem Sorted.keys_nodup (h : Sorted entries) : (keys entries).Nodup := by
  rw [keys, List.Nodup, List.pairwise_map]
  exact h.imp fun hlt heq => absurd (heq ▸ hlt) (String.lt_irrefl _)

theorem Sorted.insert (h : Sorted entries) (key : String) (value : α) :
    Sorted (insert key value entries) := by
  induction entries with
  | nil => exact List.pairwise_singleton _ _
  | cons first rest ih =>
      obtain ⟨l, v⟩ := first
      obtain ⟨hfirst, hrest⟩ := List.pairwise_cons.mp h
      rw [Entries.insert]
      split
      · rename_i hl
        exact List.pairwise_cons.mpr ⟨fun x hx => hl ▸ hfirst x hx, hrest⟩
      · rename_i hne
        split
        · rename_i hlt
          refine List.pairwise_cons.mpr ⟨fun x hx => ?_, h⟩
          rcases List.mem_cons.mp hx with rfl | hx
          · exact hlt
          · exact lt_trans hlt (hfirst x hx)
        · rename_i hnlt
          have hlk : l < key := lt_of_le_of_ne (not_lt.mp hnlt) hne
          refine List.pairwise_cons.mpr ⟨fun x hx => ?_, ih hrest⟩
          rcases mem_insert hx with rfl | hx
          · exact hlk
          · exact hfirst x hx

/-- In a sorted list a key that is removed is gone. -/
theorem Sorted.get?_erase_self (h : Sorted entries) (key : String) :
    get? (Entries.erase entries key) key = none := by
  induction entries with
  | nil => rfl
  | cons first rest ih =>
      obtain ⟨l, v⟩ := first
      obtain ⟨hfirst, hrest⟩ := List.pairwise_cons.mp h
      rw [Entries.erase]
      split
      · rename_i hl
        rw [get?_eq_none_iff]
        intro hmem
        obtain ⟨entry, hentry, rfl⟩ := List.mem_map.mp hmem
        exact String.lt_irrefl _ (hl ▸ hfirst entry hentry)
      · rename_i hl
        rw [get?_cons, if_neg hl, ih hrest]

/-- In a sorted list a key that was removed goes back to its place. -/
theorem Sorted.insert_erase (h : Sorted entries) (hget : get? entries key = some value) :
    Entries.insert key value (Entries.erase entries key) = entries := by
  induction entries with
  | nil => simp at hget
  | cons first rest ih =>
      obtain ⟨l, v⟩ := first
      obtain ⟨hfirst, hrest⟩ := List.pairwise_cons.mp h
      rw [get?_cons] at hget
      by_cases hl : l = key
      · rw [if_pos hl, Option.some.injEq] at hget
        rw [Entries.erase, if_pos hl, ← hl, ← hget]
        cases rest with
        | nil => rfl
        | cons second others =>
            have hlt : l < second.1 := hfirst _ List.mem_cons_self
            rw [Entries.insert, if_neg (ne_of_gt hlt), if_pos hlt]
      · rw [if_neg hl] at hget
        have hlt : l < key := hfirst _ (mem_of_get? hget)
        rw [Entries.erase, if_neg hl, Entries.insert, if_neg hl, if_neg (not_lt_of_gt hlt),
          ih hrest hget]

/-! ### Adding a list -/

theorem Sorted.insertAll (h : Sorted entries) (additions : List (String × α)) :
    Sorted (insertAll entries additions) := by
  induction additions generalizing entries with
  | nil => exact h
  | cons first rest ih => exact ih (h.insert first.1 first.2)

theorem mem_insertAll {entry : String × α} {additions : List (String × α)}
    (h : entry ∈ insertAll entries additions) : entry ∈ entries ∨ entry ∈ additions := by
  induction additions generalizing entries with
  | nil => exact Or.inl h
  | cons first rest ih =>
      rcases ih h with h | h
      · rcases mem_insert h with rfl | h
        · exact Or.inr List.mem_cons_self
        · exact Or.inl h
      · exact Or.inr (List.mem_cons_of_mem _ h)

theorem sorted_ofPairs (pairs : List (String × α)) : Sorted (ofPairs pairs) :=
  Sorted.insertAll List.Pairwise.nil pairs

theorem mem_of_mem_ofPairs {entry : String × α} {pairs : List (String × α)}
    (h : entry ∈ ofPairs pairs) : entry ∈ pairs :=
  (mem_insertAll h).resolve_left List.not_mem_nil

/-- What a key is read as stays when the entries that are added agree with it. -/
theorem get?_insertAll_of_agree {additions : List (String × α)}
    (hget : get? entries key = some value)
    (h : ∀ entry ∈ additions, entry.1 = key → entry.2 = value) :
    get? (insertAll entries additions) key = some value := by
  induction additions generalizing entries with
  | nil => exact hget
  | cons first rest ih =>
      refine ih ?_ fun entry hentry => h entry (List.mem_cons_of_mem _ hentry)
      rw [get?_insert]
      by_cases hkey : first.1 = key
      · rw [if_pos hkey, h first List.mem_cons_self hkey]
      · rw [if_neg hkey, hget]

/-- The last entry with a key is what is read, and entries behind it that have its key and
its value do no harm. -/
theorem get?_insertAll_of_last {front back : List (String × α)}
    (h : ∀ entry ∈ back, entry.1 = key → entry.2 = value) (entries : List (String × α)) :
    get? (insertAll entries (front ++ (key, value) :: back)) key = some value := by
  have hsplit : insertAll entries (front ++ (key, value) :: back) =
      insertAll (insert key value (insertAll entries front)) back := by
    unfold insertAll
    rw [List.foldl_append, List.foldl_cons]
  rw [hsplit]
  exact get?_insertAll_of_agree (get?_insert_self _ _ _) h

/-- Adding entries with distinct keys: they are read first, then what was there. -/
theorem get?_insertAll {additions : List (String × α)} (hnd : (keys additions).Nodup)
    (entries : List (String × α)) (key : String) :
    get? (insertAll entries additions) key = (get? additions key).or (get? entries key) := by
  induction additions generalizing entries with
  | nil => rfl
  | cons first rest ih =>
      obtain ⟨k, v⟩ := first
      obtain ⟨hk, hrest⟩ := List.nodup_cons.mp hnd
      show get? (insertAll (insert k v entries) rest) key = _
      rw [ih hrest, get?_insert, get?_cons]
      by_cases hkey : k = key
      · have hnone : get? rest key = none := get?_eq_none_iff.mpr (hkey ▸ hk)
        rw [if_pos hkey, if_pos hkey, hnone, Option.none_or, Option.some_or]
      · rw [if_neg hkey, if_neg hkey]

theorem keys_insert_perm {key : String} {value : α} {entries : List (String × α)}
    (h : key ∉ keys entries) : (keys (insert key value entries)).Perm (key :: keys entries) := by
  induction entries with
  | nil => exact List.Perm.refl _
  | cons entry rest ih =>
      obtain ⟨k, v⟩ := entry
      rw [keys_cons, List.mem_cons, not_or] at h
      unfold insert
      rw [if_neg (Ne.symm h.1)]
      by_cases hlt : key < k
      · rw [if_pos hlt]
        exact List.Perm.refl _
      · rw [if_neg hlt, keys_cons, keys_cons]
        exact ((ih h.2).cons k).trans (List.Perm.swap _ _ _)

/-- Entries under new keys are all there afterwards, beside the old ones. -/
theorem keys_insertAll_perm {additions entries : List (String × α)}
    (hnd : (keys additions).Nodup) (hnew : ∀ key ∈ keys additions, key ∉ keys entries) :
    (keys (insertAll entries additions)).Perm (keys entries ++ keys additions) := by
  induction additions generalizing entries with
  | nil => rw [keys_nil, List.append_nil]; exact List.Perm.refl _
  | cons first rest ih =>
      obtain ⟨k, v⟩ := first
      obtain ⟨hk, hrest⟩ := List.nodup_cons.mp hnd
      have hold : k ∉ keys entries := hnew k List.mem_cons_self
      have hlater : ∀ key ∈ keys rest, key ∉ keys (insert k v entries) := by
        intro key hkey hmem
        rcases mem_keys_insert.mp hmem with rfl | hmem
        · exact hk hkey
        · exact hnew key (List.mem_cons_of_mem _ hkey) hmem
      have hinsert := (keys_insert_perm hold : (keys (insert k v entries)).Perm _)
      exact ((ih hrest hlater).trans (hinsert.append_right _)).trans List.perm_middle.symm

/-! ### Two lists side by side -/

/-- Sorted lists that have the same keys have them in the same order. -/
theorem Sorted.keys_eq {others : List (String × β)} (h : Sorted entries) (h' : Sorted others)
    (hkeys : ∀ key, key ∈ keys entries ↔ key ∈ keys others) : keys entries = keys others := by
  have hperm := (List.perm_ext_iff_of_nodup h.keys_nodup h'.keys_nodup).mpr hkeys
  have hantisymm : ∀ a b : String, a ∈ keys entries → b ∈ keys others → a < b → b < a → a = b :=
    fun a b _ _ hab hba => absurd (String.lt_trans hab hba) (String.lt_irrefl a)
  exact hperm.eq_of_pairwise hantisymm (List.pairwise_map.mpr h) (List.pairwise_map.mpr h')

/-- Under the same keys in the same order, values that are related key by key are related one
after the other. -/
theorem forall₂_of_get? {others : List (String × β)} {R : α → β → Prop}
    (hkeys : keys entries = keys others) (hnodup : (keys entries).Nodup)
    (h : ∀ key v w, get? entries key = some v → get? others key = some w → R v w) :
    List.Forall₂ (fun x y => x.1 = y.1 ∧ R x.2 y.2) entries others := by
  induction entries generalizing others with
  | nil =>
      cases others with
      | nil => exact .nil
      | cons y ys => simp at hkeys
  | cons x xs ih =>
      cases others with
      | nil => simp at hkeys
      | cons y ys =>
          rw [keys_cons, keys_cons, List.cons.injEq] at hkeys
          rw [keys_cons, List.nodup_cons] at hnodup
          have hfirst := h x.1 x.2 y.2 (by rw [get?_cons, if_pos rfl])
            (by rw [get?_cons, if_pos hkeys.1.symm])
          refine .cons ⟨hkeys.1, hfirst⟩ (ih hkeys.2 hnodup.2 fun key v w hv hw => ?_)
          have hne : x.1 ≠ key := by
            rintro rfl
            exact hnodup.1 (mem_keys_of_get? hv)
          exact h key v w (by rw [get?_cons, if_neg hne, hv])
            (by rw [get?_cons, if_neg (hkeys.1 ▸ hne), hw])

/-- And the other way round, whether a key stands twice or not. -/
theorem get?_rel_of_forall₂ {others : List (String × β)} {R : α → β → Prop}
    (h : List.Forall₂ (fun x y => x.1 = y.1 ∧ R x.2 y.2) entries others) (key : String) :
    Option.Rel R (get? entries key) (get? others key) := by
  induction h with
  | nil => exact Option.Rel.none
  | @cons x y _ _ hxy _ ih =>
      obtain ⟨k, v⟩ := x
      obtain ⟨l, w⟩ := y
      obtain ⟨hkey, hvalue⟩ := hxy
      rw [get?_cons, get?_cons, ← show k = l from hkey]
      split
      · exact Option.Rel.some hvalue
      · exact ih

/-! ### A list around one entry -/

theorem get?_append (front back : List (String × α)) (key : String) :
    get? (front ++ back) key = (get? front key).or (get? back key) := by
  induction front with
  | nil => rfl
  | cons first rest ih =>
      obtain ⟨l, v⟩ := first
      rw [List.cons_append, get?_cons, get?_cons, ih]
      split
      · rfl
      · rfl

/-- Another key does not see the entry. -/
theorem get?_beside (h : k ≠ key) (value : α) :
    get? (front ++ (key, value) :: back) k = get? (front ++ back) k := by
  rw [get?_append, get?_append, get?_cons, if_neg (Ne.symm h)]

/-- In a sorted list the key stands nowhere else. -/
theorem Sorted.front_lt (h : Sorted (front ++ (key, value) :: back)) :
    ∀ entry ∈ front, entry.1 < key := by
  intro entry hentry
  exact (List.pairwise_append.mp h).2.2 entry hentry _ List.mem_cons_self

theorem Sorted.get?_at (h : Sorted (front ++ (key, value) :: back)) :
    get? (front ++ (key, value) :: back) key = some value := by
  have hnone : get? front key = none := by
    rw [get?_eq_none_iff]
    intro hmem
    obtain ⟨entry, hentry, rfl⟩ := List.mem_map.mp hmem
    exact String.lt_irrefl _ (h.front_lt entry hentry)
  rw [get?_append, hnone, Option.none_or, get?_cons, if_pos rfl]

/-- The value of an entry plays no part in the order. -/
theorem Sorted.set (h : Sorted (front ++ (key, value) :: back)) (new : α) :
    Sorted (front ++ (key, new) :: back) := by
  have hkeys : ∀ w : α, (front ++ (key, w) :: back).map Prod.fst =
      front.map Prod.fst ++ key :: back.map Prod.fst := by simp
  have hold : ((front ++ (key, value) :: back).map Prod.fst).Pairwise (· < ·) :=
    List.pairwise_map.mpr h
  rw [hkeys, ← hkeys new] at hold
  exact List.pairwise_map.mp hold

theorem Sorted.insert_at (h : Sorted (front ++ (key, value) :: back)) (new : α) :
    Entries.insert key new (front ++ (key, value) :: back) = front ++ (key, new) :: back := by
  induction front with
  | nil =>
      rw [List.nil_append, Entries.insert, if_pos rfl]
      rfl
  | cons first rest ih =>
      obtain ⟨l, v⟩ := first
      have hlt : l < key := h.front_lt _ List.mem_cons_self
      rw [List.cons_append] at h
      rw [List.cons_append, Entries.insert, if_neg (ne_of_lt hlt), if_neg (not_lt_of_gt hlt),
        ih (List.pairwise_cons.mp h).2]
      rfl

/-- Setting another key happens beside the entry, whatever its value, and in the same way
when the entry is missing. -/
theorem Sorted.insert_beside (h : Sorted (front ++ (key, value) :: back)) (hne : k ≠ key)
    (new : α) : ∃ front' back',
      (∀ w, Entries.insert k new (front ++ (key, w) :: back) = front' ++ (key, w) :: back') ∧
        Entries.insert k new (front ++ back) = front' ++ back' := by
  induction front with
  | nil =>
      by_cases hlt : k < key
      · refine ⟨[(k, new)], back, fun w => ?_, ?_⟩
        · rw [List.nil_append, Entries.insert, if_neg (Ne.symm hne), if_pos hlt]
          rfl
        · -- what follows the entry comes after the new key as well
          cases back with
          | nil => rfl
          | cons second rest =>
              have hsecond : k < second.1 :=
                lt_trans hlt ((List.pairwise_cons.mp h).1 second List.mem_cons_self)
              rw [List.nil_append, Entries.insert, if_neg (ne_of_gt hsecond), if_pos hsecond]
              rfl
      · refine ⟨[], Entries.insert k new back, fun w => ?_, rfl⟩
        rw [List.nil_append, Entries.insert, if_neg (Ne.symm hne), if_neg hlt]
        rfl
  | cons first rest ih =>
      obtain ⟨l, v⟩ := first
      rw [List.cons_append] at h
      obtain ⟨front', back', hall, hmissing⟩ := ih (List.pairwise_cons.mp h).2
      by_cases hl : l = k
      · refine ⟨(k, new) :: rest, back, fun w => ?_, ?_⟩
        · rw [List.cons_append, Entries.insert, if_pos hl]
          rfl
        · rw [List.cons_append, Entries.insert, if_pos hl]
          rfl
      · by_cases hlt : k < l
        · refine ⟨(k, new) :: (l, v) :: rest, back, fun w => ?_, ?_⟩
          · rw [List.cons_append, Entries.insert, if_neg hl, if_pos hlt]
            rfl
          · rw [List.cons_append, Entries.insert, if_neg hl, if_pos hlt]
            rfl
        · refine ⟨(l, v) :: front', back', fun w => ?_, ?_⟩
          · rw [List.cons_append, Entries.insert, if_neg hl, if_neg hlt, hall w]
            rfl
          · rw [List.cons_append, Entries.insert, if_neg hl, if_neg hlt, hmissing]
            rfl

/-- Adding entries under other keys leaves the entry in its place, whatever its value. -/
theorem Sorted.insertAll_beside {additions : List (String × α)}
    (h : Sorted (front ++ (key, value) :: back)) (hne : key ∉ keys additions) :
    ∃ front' back', ∀ w,
      Entries.insertAll (front ++ (key, w) :: back) additions = front' ++ (key, w) :: back' := by
  induction additions generalizing front back with
  | nil => exact ⟨front, back, fun w => rfl⟩
  | cons first rest ih =>
      obtain ⟨k, new⟩ := first
      rw [keys_cons, List.mem_cons, not_or] at hne
      obtain ⟨front', back', hall, -⟩ := h.insert_beside (Ne.symm hne.1) new
      have hsorted : Sorted (front' ++ (key, value) :: back') := hall value ▸ h.insert k new
      obtain ⟨front'', back'', hrest⟩ := ih hsorted hne.2
      refine ⟨front'', back'', fun w => ?_⟩
      show Entries.insertAll (Entries.insert k new (front ++ (key, w) :: back)) rest = _
      rw [hall w, hrest w]

/-! ### A list around one key -/

/-- A sorted list around a key: what comes before it, its own value, and what comes after. -/
theorem Sorted.split_at (h : Sorted entries) (key : String) :
    ∃ (front : List (String × α)) (value : Option α) (back : List (String × α)),
      entries = front ++ ((value.map (key, ·)).toList ++ back) ∧
        (∀ entry ∈ front, entry.1 < key) ∧ ∀ entry ∈ back, key < entry.1 := by
  induction entries with
  | nil => exact ⟨[], none, [], by simp⟩
  | cons first rest ih =>
      obtain ⟨k, v⟩ := first
      obtain ⟨hfirst, hrest⟩ := List.pairwise_cons.mp h
      rcases lt_trichotomy k key with hlt | rfl | hgt
      · obtain ⟨front, value, back, rfl, hfront, hback⟩ := ih hrest
        exact ⟨(k, v) :: front, value, back, rfl, List.forall_mem_cons.mpr ⟨hlt, hfront⟩, hback⟩
      · exact ⟨[], some v, rest, rfl, by simp, hfirst⟩
      · exact ⟨[], none, (k, v) :: rest, rfl, by simp, List.forall_mem_cons.mpr
          ⟨hgt, fun entry hentry => lt_trans hgt (hfirst entry hentry)⟩⟩

/-- A key is read on its own side of the one in the middle. -/
theorem get?_around (hfront : ∀ entry ∈ front, entry.1 < key)
    (hback : ∀ entry ∈ back, key < entry.1) (value : Option α) (s : String) :
    get? (front ++ ((value.map (key, ·)).toList ++ back)) s =
      if s < key then get? front s else if key < s then get? back s else value := by
  have hmiddle : get? (value.map (key, ·)).toList s = if key = s then value else none := by
    cases value <;> simp [get?_cons]
  have hnotFront : ¬ s < key → get? front s = none := by
    rw [get?_eq_none_iff]
    intro h hmem
    obtain ⟨entry, hentry, rfl⟩ := List.mem_map.mp hmem
    exact h (hfront entry hentry)
  have hnotBack : ¬ key < s → get? back s = none := by
    rw [get?_eq_none_iff]
    intro h hmem
    obtain ⟨entry, hentry, rfl⟩ := List.mem_map.mp hmem
    exact h (hback entry hentry)
  rw [get?_append, get?_append, hmiddle]
  rcases lt_trichotomy s key with hlt | rfl | hgt
  · rw [if_pos hlt, if_neg (ne_of_gt hlt), hnotBack (not_lt_of_gt hlt)]
    simp
  · rw [if_pos rfl, hnotFront (lt_irrefl s), hnotBack (lt_irrefl s), if_neg (lt_irrefl s),
      if_neg (lt_irrefl s)]
    simp
  · rw [if_neg (not_lt_of_gt hgt), if_pos hgt, if_neg (ne_of_lt hgt),
      hnotFront (not_lt_of_gt hgt)]
    simp

end Entries

end SchemaBundle
