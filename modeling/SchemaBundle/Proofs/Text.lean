/-
Cutting texts and joining the pieces.

Cutting at a separator and joining with it are inverse to each other, as long as no piece
contains the separator; and the pieces of a text never do.  So whether a text was joined from
pieces, and from which ones, is read off the text.
-/
import Mathlib.Data.List.TakeWhile
import SchemaBundle.Text.Pieces

namespace SchemaBundle

namespace Text

variable {separator : Char} {cs rest piece : List Char}

theorem splitOnce?_eq (separator : Char) (cs : List Char) :
    splitOnce? separator cs =
      if separator ∈ cs then
        some (cs.takeWhile (· ≠ separator), (cs.dropWhile (· ≠ separator)).drop 1)
      else none := by
  induction cs with
  | nil => rfl
  | cons c rest ih =>
      unfold splitOnce?
      by_cases h : c = separator
      · simp [h]
      · rw [if_neg h, ih]
        have hmem : separator ∈ c :: rest ↔ separator ∈ rest := by simp [Ne.symm h]
        by_cases hrest : separator ∈ rest
        · rw [if_pos hrest, if_pos (hmem.mpr hrest)]
          simp [h]
        · rw [if_neg hrest, if_neg fun hc => hrest (hmem.mp hc)]
          rfl

theorem all_ne (h : separator ∉ cs) : ∀ c ∈ cs, (decide (c ≠ separator)) = true := by
  intro c hc
  rw [decide_eq_true_eq]
  rintro rfl
  exact h hc

theorem splitOnce?_append {before : List Char} (h : separator ∉ before) (after : List Char) :
    splitOnce? separator (before ++ separator :: after) = some (before, after) := by
  rw [splitOnce?_eq, if_pos (by simp), List.takeWhile_append_of_pos (all_ne h),
    List.dropWhile_append_of_pos (all_ne h)]
  simp

/-- Where a text is cut once, the two parts with the separator between them are the text. -/
theorem eq_append_of_splitOnce? {before after : List Char}
    (h : splitOnce? separator cs = some (before, after)) : cs = before ++ separator :: after := by
  induction cs generalizing before with
  | nil => simp [splitOnce?] at h
  | cons c rest ih =>
      unfold splitOnce? at h
      split at h
      · rename_i hc
        obtain ⟨rfl, rfl⟩ := Prod.mk.inj (Option.some.inj h)
        rw [hc, List.nil_append]
      · obtain ⟨⟨front, back⟩, hrest, hparts⟩ := Option.map_eq_some_iff.mp h
        obtain ⟨rfl, rfl⟩ := Prod.mk.inj hparts
        rw [ih hrest, List.cons_append]

/-! ### Cutting what was joined -/

theorem splitOn_of_not_mem (h : separator ∉ cs) : splitOn separator cs = [cs] := by
  induction cs with
  | nil => rfl
  | cons c rest ih =>
      rw [List.mem_cons, not_or] at h
      unfold splitOn
      rw [if_neg (Ne.symm h.1), ih h.2]

theorem splitOn_append (h : separator ∉ cs) (rest : List Char) :
    splitOn separator (cs ++ separator :: rest) = cs :: splitOn separator rest := by
  induction cs with
  | nil =>
      show splitOn separator (separator :: rest) = _
      rw [splitOn, if_pos rfl]
  | cons c cs ih =>
      rw [List.mem_cons, not_or] at h
      rw [List.cons_append, splitOn, if_neg (Ne.symm h.1), ih h.2]

/-- Pieces without the separator are found again in the text that joins them. -/
theorem splitOn_joinWith {pieces : List String} (hne : pieces ≠ [])
    (h : ∀ piece ∈ pieces, separator ∉ piece.toList) :
    splitOn separator (joinWith (String.ofList [separator]) pieces).toList =
      pieces.map String.toList := by
  induction pieces with
  | nil => exact absurd rfl hne
  | cons first rest ih =>
      rw [List.forall_mem_cons] at h
      cases rest with
      | nil => exact splitOn_of_not_mem h.1
      | cons second rest =>
          show splitOn separator (first ++ String.ofList [separator] ++
            joinWith (String.ofList [separator]) (second :: rest)).toList = _
          rw [String.toList_append, String.toList_append, String.toList_ofList, List.append_assoc,
            List.singleton_append, splitOn_append h.1, ih (List.cons_ne_nil _ _) h.2]
          rfl

/-! ### Joining what was cut -/

theorem splitOn_cons (separator : Char) (rest : List Char) :
    splitOn separator (separator :: rest) = [] :: splitOn separator rest := by
  rw [splitOn, if_pos rfl]

theorem splitOn_ne_nil (separator : Char) (cs : List Char) : splitOn separator cs ≠ [] := by
  cases cs with
  | nil => simp [splitOn]
  | cons c rest =>
      unfold splitOn
      split
      · simp
      · split <;> simp

/-- Another character is put in front of the first piece. -/
theorem splitOn_cons_of_ne {c : Char} (h : c ≠ separator) (rest : List Char) :
    ∃ piece pieces, splitOn separator rest = piece :: pieces ∧
      splitOn separator (c :: rest) = (c :: piece) :: pieces := by
  obtain ⟨piece, pieces, hpieces⟩ := List.exists_cons_of_ne_nil (splitOn_ne_nil separator rest)
  exact ⟨piece, pieces, hpieces, by rw [splitOn, if_neg h, hpieces]⟩

/-- **A text is its pieces, each behind a separator.** -/
theorem flatMap_splitOn (separator : Char) (cs : List Char) :
    ((splitOn separator cs).flatMap fun piece => separator :: piece) = separator :: cs := by
  induction cs with
  | nil => rfl
  | cons c rest ih =>
      by_cases hc : c = separator
      · rw [hc, splitOn_cons, List.flatMap_cons, ih]
        rfl
      · obtain ⟨piece, pieces, hrest, hcons⟩ := splitOn_cons_of_ne hc rest
        rw [hrest, List.flatMap_cons] at ih
        have hcut : piece ++ pieces.flatMap (fun piece => separator :: piece) = rest :=
          (List.cons.inj ih).2
        rw [hcons, List.flatMap_cons, List.cons_append, List.cons_append, hcut]

/-- No piece contains the separator. -/
theorem not_mem_of_mem_splitOn (h : piece ∈ splitOn separator cs) : separator ∉ piece := by
  induction cs generalizing piece with
  | nil =>
      rw [splitOn, List.mem_singleton] at h
      rw [h]
      exact List.not_mem_nil
  | cons c rest ih =>
      by_cases hc : c = separator
      · rw [hc, splitOn_cons, List.mem_cons] at h
        rcases h with rfl | h
        · exact List.not_mem_nil
        · exact ih h
      · obtain ⟨first, pieces, hrest, hcons⟩ := splitOn_cons_of_ne hc rest
        rw [hcons, List.mem_cons] at h
        rcases h with rfl | h
        · rw [List.mem_cons, not_or]
          exact ⟨Ne.symm hc, ih (hrest ▸ List.mem_cons_self)⟩
        · exact ih (hrest ▸ List.mem_cons_of_mem _ h)

/-- A text without the separator that is put behind another one belongs to its last piece. -/
theorem exists_splitOn_append (h : separator ∉ rest) (cs : List Char) :
    ∃ front last, splitOn separator (cs ++ rest) = front ++ [last ++ rest] := by
  induction cs with
  | nil => exact ⟨[], [], splitOn_of_not_mem h⟩
  | cons c cs ih =>
      obtain ⟨front, last, ih⟩ := ih
      by_cases hc : c = separator
      · refine ⟨[] :: front, last, ?_⟩
        rw [hc, List.cons_append, splitOn_cons, ih, List.cons_append]
      · obtain ⟨first, pieces, hrest, hcons⟩ := splitOn_cons_of_ne hc (cs ++ rest)
        rw [List.cons_append, hcons]
        rw [ih] at hrest
        cases front with
        | nil =>
            obtain ⟨rfl, rfl⟩ := List.cons.inj hrest
            exact ⟨[], c :: last, rfl⟩
        | cons second front =>
            obtain ⟨rfl, rfl⟩ := List.cons.inj hrest
            exact ⟨(c :: second) :: front, last, rfl⟩

end Text

end SchemaBundle
