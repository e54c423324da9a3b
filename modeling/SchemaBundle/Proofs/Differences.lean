/-
Differences name exactly what differs.

An object and an array are the same kind of thing to a comparison: parts under names, the
items of an array under their indices.  Two values that can be compared part by part differ
where their parts under some name differ, and each difference of the parts is one of the
values, with the name in front of its place.  All other values are compared as a whole.

Everything else is by induction on that.  Places under two names never start with one
another, so no difference lies below another; and a pointer that finds the parts of a value
by their names finds what a difference says is there.
-/
import SchemaBundle.Diff.Paths
import SchemaBundle.Proofs.Pointer
import SchemaBundle.Proofs.Reference

namespace SchemaBundle

namespace Json

/-! ### Parts and their names -/

/-- Items under their indices, the first of them under `start`. -/
def numbered : Nat → List Json → List (String × Json)
  | _, [] => []
  | start, item :: rest => (toString start, item) :: numbered (start + 1) rest

/-- What a value is made of, each part under the name that a pointer has for it. -/
def parts : Json → List (String × Json)
  | .object members => members
  | .array items => numbered 0 items
  | _ => []

/-- The part under a name. -/
def part? (v : Json) (name : String) : Option Json :=
  Entries.get? v.parts name

theorem keys_numbered (start : Nat) (items : List Json) :
    Entries.keys (numbered start items) = (List.range' start items.length).map toString := by
  induction items generalizing start with
  | nil => rfl
  | cons item rest ih =>
      rw [numbered, Entries.keys_cons, ih, List.length_cons, List.range'_succ, List.map_cons]

theorem toList_toString (i : Nat) : (toString i).toList = Nat.toDigits 10 i := by simp

theorem toString_injective : Function.Injective (toString : Nat → String) := by
  intro i j h
  have hdigits := congrArg (fun s : String => Nat.ofDigitChars 10 s.toList 0) h
  simpa only [toList_toString, Nat.ofDigitChars_ten_toDigits] using hdigits

theorem nodup_keys_numbered (start : Nat) (items : List Json) :
    (Entries.keys (numbered start items)).Nodup := by
  rw [keys_numbered]
  exact List.Nodup.map toString_injective List.nodup_range'

theorem get?_numbered (start i : Nat) (items : List Json) :
    Entries.get? (numbered start items) (toString (start + i)) = items[i]? := by
  induction items generalizing start i with
  | nil => rfl
  | cons item rest ih =>
      rw [numbered, Entries.get?_cons]
      cases i with
      | zero => rw [Nat.add_zero, if_pos rfl, List.getElem?_cons_zero]
      | succ i =>
          have hne : toString start ≠ toString (start + (i + 1)) := by
            intro h
            have := toString_injective h
            omega
          rw [if_neg hne, List.getElem?_cons_succ, ← ih (start + 1) i]
          congr 2
          omega

theorem part?_array (items : List Json) (i : Nat) :
    (Json.array items).part? (toString i) = items[i]? := by
  have h := get?_numbered 0 i items
  rwa [Nat.zero_add] at h

theorem mem_keys_array {items : List Json} {name : String} :
    name ∈ Entries.keys (Json.array items).parts ↔ ∃ i < items.length, toString i = name := by
  simp [parts, keys_numbered]

theorem part?_eq_none_iff {v : Json} {name : String} :
    v.part? name = none ↔ name ∉ Entries.keys v.parts :=
  Entries.get?_eq_none_iff

theorem isSome_part?_iff {v : Json} {name : String} :
    (v.part? name).isSome ↔ name ∈ Entries.keys v.parts :=
  Entries.isSome_get?_iff

theorem mem_parts_of_part? {v w : Json} {name : String} (h : v.part? name = some w) :
    name ∈ Entries.keys v.parts :=
  Entries.mem_keys_of_get? h

theorem mem_array_of_part? {items : List Json} {name : String} {w : Json}
    (h : (Json.array items).part? name = some w) : w ∈ items := by
  obtain ⟨i, -, rfl⟩ := mem_keys_array.mp (mem_parts_of_part? h)
  rw [part?_array] at h
  exact List.mem_of_getElem? h

/-- What holds of every value whose parts have it holds of all values. -/
theorem induction_parts {P : Json → Prop}
    (parts : ∀ v, (∀ name w, part? v name = some w → P w) → P v) (v : Json) : P v := by
  induction v with
  | null | bool _ | number _ | string _ =>
      exact parts _ fun name w h => by simp [part?, Json.parts] at h
  | array items ih => exact parts _ fun name w h => ih w (mem_array_of_part? h)
  | object members ih => exact parts _ fun name w h => ih (name, w) (Entries.mem_of_get? h)

theorem Ordered.of_part? {v w : Json} {name : String} (hv : v.Ordered)
    (h : v.part? name = some w) : w.Ordered := by
  cases hv with
  | array hitems => exact hitems w (mem_array_of_part? h)
  | object _ hmembers => exact hmembers (name, w) (Entries.mem_of_get? h)
  | null | bool _ | number _ | string _ => simp [part?, parts] at h

/-! ### Parts and pointers -/

/-- Every item of every array in the value has an index that a pointer can name, which fits 64
bits. No array that fits into memory is longer. -/
inductive Indexable : Json → Prop
  | null : Indexable .null
  | bool (b : Bool) : Indexable (.bool b)
  | number (n : Number) : Indexable (.number n)
  | string (s : String) : Indexable (.string s)
  | array {items : List Json} (length : items.length ≤ 2 ^ 64)
      (h : ∀ item ∈ items, Indexable item) : Indexable (.array items)
  | object {members : List (String × Json)} (h : ∀ entry ∈ members, Indexable entry.2) :
      Indexable (.object members)

@[simp] theorem indexable_array {items : List Json} :
    Indexable (.array items) ↔ items.length ≤ 2 ^ 64 ∧ ∀ item ∈ items, Indexable item :=
  ⟨fun h => by cases h with | array length h => exact ⟨length, h⟩, fun h => .array h.1 h.2⟩

@[simp] theorem indexable_object {members : List (String × Json)} :
    Indexable (.object members) ↔ ∀ entry ∈ members, Indexable entry.2 :=
  ⟨fun h => by cases h with | object h => exact h, .object⟩

theorem Indexable.of_part? {v w : Json} {name : String} (hv : v.Indexable)
    (h : v.part? name = some w) : w.Indexable := by
  cases hv with
  | array _ hitems => exact hitems w (mem_array_of_part? h)
  | object hmembers => exact hmembers (name, w) (Entries.mem_of_get? h)
  | null | bool _ | number _ | string _ => simp [part?, parts] at h

end Json

namespace Pointer

/-- An index is read back from its digits. -/
theorem arrayIndex?_toString {i : Nat} (h : i < 2 ^ 64) : arrayIndex? (toString i) = some i := by
  obtain ⟨c, cs, hcs⟩ := List.exists_cons_of_ne_nil (Nat.toDigits_ne_nil (n := i) (b := 10))
  have hdigit : ∀ d ∈ c :: cs, d.isDigit = true := fun d hd =>
    Nat.isDigit_of_mem_toDigits (by decide) (by decide) (hcs ▸ hd)
  have hplus : c ≠ '+' := by
    rintro rfl
    exact absurd (hdigit _ List.mem_cons_self) (by decide)
  have hvalue : (c :: cs).foldl (fun n c => n * 10 + (c.toNat - 48)) 0 = i := by
    have hread : Nat.ofDigitChars 10 (c :: cs) 0 = i := hcs ▸ Nat.ofDigitChars_ten_toDigits
    rw [← hread, Nat.ofDigitChars]
    congr 1
    funext n d
    rw [Nat.mul_comm]
    rfl
  unfold arrayIndex?
  rw [Json.toList_toString, hcs]
  split
  · rename_i rest hsplit
    exact absurd (List.cons.inj hsplit).1 hplus
  · simp only [List.isEmpty_cons, Bool.false_or, List.all_eq_true.mpr hdigit, Bool.not_true,
      Bool.false_eq_true, if_false, hvalue]
    exact if_pos h

theorem step?_array {items : List Json} {i : Nat} (h : i < 2 ^ 64) :
    step? (.array items) (toString i) = (Json.array items).part? (toString i) := by
  rw [Json.part?_array]
  show (arrayIndex? _).bind _ = _
  rw [arrayIndex?_toString h, Option.bind_some]

end Pointer

namespace Diff

open Json (Ordered part? numbered)

/-! ### Relative places -/

namespace Difference

/-- Where the values differ. -/
def place : Difference → Pointer
  | .changed place | .missing place | .extra place => place

/-- What the text of a difference says after its pointer. -/
def marker : Difference → String
  | .changed _ => ""
  | .missing _ => " (missing in actual)"
  | .extra _ => " (extra in actual)"

/-- The same difference of two values that stand at a place. -/
def below (above : Pointer) : Difference → Difference
  | .changed place => .changed (above ++ place)
  | .missing place => .missing (above ++ place)
  | .extra place => .extra (above ++ place)

@[simp] theorem place_below (above : Pointer) (d : Difference) :
    (d.below above).place = above ++ d.place := by
  cases d <;> rfl

theorem below_below (p q : Pointer) (d : Difference) :
    (d.below q).below p = d.below (p ++ q) := by
  cases d <;> simp [below]

/-- The name in front and the rest can be told from the whole. -/
theorem below_inj {s t : String} {d d' : Difference} :
    d.below [s] = d'.below [t] ↔ s = t ∧ d = d' := by
  cases d <;> cases d' <;> simp [below]

/-- The text of a difference is its place as a pointer, then its marker. -/
theorem text_eq (d : Difference) : d.text = Pointer.format d.place ++ d.marker := by
  cases d <;> simp [text, place, marker]

end Difference

/-! ### Part by part -/

/-- Values that are compared part by part: both are objects, or both are arrays of the same
length. -/
inductive Comparable : Json → Json → Prop
  | objects (xs ys : List (String × Json)) : Comparable (.object xs) (.object ys)
  | arrays {xs ys : List Json} (length : xs.length = ys.length) :
      Comparable (.array xs) (.array ys)

/-- The differences at a place where a value may be missing. -/
def between (place : Pointer) : Option Json → Option Json → List Difference
  | some e, some a => differencesAt place e a
  | some _, none => [.missing place]
  | none, some _ => [.extra place]
  | none, none => []

variable {e a : Json} {d d' : Difference}

/-- Equal arrays are as long as each other. -/
theorem differencesAt_of_not_comparable (h : ¬ Comparable e a) (place : Pointer) :
    differencesAt place e a = if e == a then [] else [.changed place] := by
  cases e with
  | object xs =>
      cases a with
      | object ys => exact absurd (.objects xs ys) h
      | _ => rfl
  | array xs =>
      cases a with
      | array ys =>
          have hlength : xs.length ≠ ys.length := fun heq => h (.arrays heq)
          have hne : ¬ (Json.array xs == Json.array ys) = true := by
            rw [Json.array_beq_array]
            exact fun hall => hlength hall.length_eq
          rw [differencesAt, if_neg hlength, if_neg hne]
      | _ => rfl
  | _ => cases a <;> rfl

/-- What the next key of the expected object does: the members of the actual object before it
are extra, and its own value is compared with its counterpart, if there is one. -/
theorem memberDifferences_cons {key : String} {before after : List (String × Json)}
    (hbefore : ∀ entry ∈ before, entry.1 < key) (hafter : ∀ entry ∈ after, key < entry.1)
    (place : Pointer) (value : Json) (counterpart : Option Json)
    (rest : List (String × Json)) :
    memberDifferences place ((key, value) :: rest)
        (before ++ ((counterpart.map (key, ·)).toList ++ after)) =
      (before.map fun entry => Difference.extra (place ++ [entry.1])) ++
        (between (place ++ [key]) (some value) counterpart ++
          memberDifferences place rest after) := by
  have hfront : (before ++ ((counterpart.map (key, ·)).toList ++ after)).takeWhile
      (fun entry => entry.1 < key) = before := by
    rw [List.takeWhile_append_of_pos (by simpa using hbefore), List.append_right_eq_self]
    cases counterpart with
    | some c => exact List.takeWhile_cons_of_neg (by simp)
    | none =>
        cases after with
        | nil => rfl
        | cons first _ =>
            have hnot : ¬ first.1 < key := not_lt_of_gt (hafter first List.mem_cons_self)
            exact List.takeWhile_cons_of_neg (by rwa [decide_eq_true_eq])
  rw [memberDifferences]
  simp only [hfront, List.drop_left]
  cases counterpart with
  | some c => simp [between]
  | none =>
      cases after with
      | nil => simp [between]
      | cons first rest =>
          have hne : first.1 ≠ key := ne_of_gt (hafter first List.mem_cons_self)
          simp [between, hne]

/-- The members of two objects are compared under the keys of both, in key order. -/
theorem exists_memberDifferences_eq {xs ys : List (String × Json)} (hxs : Entries.Sorted xs)
    (hys : Entries.Sorted ys) :
    ∃ names : List String, names.Pairwise (· < ·) ∧
      (∀ s, s ∈ names ↔ s ∈ Entries.keys xs ∨ s ∈ Entries.keys ys) ∧
      ∀ place, memberDifferences place xs ys = names.flatMap fun s =>
        between (place ++ [s]) (Entries.get? xs s) (Entries.get? ys s) := by
  -- one expected key at a time: the names are those before it, itself, and the names of the rest
  induction xs generalizing ys with
  | nil =>
      refine ⟨Entries.keys ys, List.pairwise_map.mpr hys, by simp, fun place => ?_⟩
      rw [memberDifferences, Entries.keys, List.flatMap_map, List.map_eq_flatMap]
      refine List.flatMap_congr fun entry hentry => ?_
      rw [Entries.get?_nil, Entries.get?_of_mem hys.keys_nodup hentry, between]
  | cons first rest ih =>
      obtain ⟨key, value⟩ := first
      obtain ⟨hfirst, hrest⟩ := List.pairwise_cons.mp hxs
      obtain ⟨before, counterpart, after, hsplit, hbefore, hafter⟩ := hys.split_at key
      obtain ⟨hsortedBefore, htail, -⟩ := List.pairwise_append.mp (hsplit ▸ hys)
      have hsorted : Entries.Sorted after := (List.pairwise_append.mp htail).2.1
      obtain ⟨names, hnames, hmem, hdifferences⟩ := ih hrest hsorted
      have hlater : ∀ s ∈ names, key < s := by
        intro s hs
        rcases (hmem s).mp hs with hs | hs
        all_goals obtain ⟨entry, hentry, rfl⟩ := List.mem_map.mp hs
        · exact hfirst entry hentry
        · exact hafter entry hentry
      have hearlier : ∀ s ∈ Entries.keys before, s < key := List.forall_mem_map.mpr hbefore
      have hkeys : Entries.keys ys =
          Entries.keys before ++ ((counterpart.map fun _ => key).toList ++ Entries.keys after) := by
        rw [hsplit, Entries.keys, Entries.keys, Entries.keys, List.map_append, List.map_append]
        cases counterpart <;> rfl
      refine ⟨Entries.keys before ++ key :: names, ?_, fun s => ?_, fun place => ?_⟩
      · refine List.pairwise_append.mpr ⟨List.pairwise_map.mpr hsortedBefore,
          List.pairwise_cons.mpr ⟨hlater, hnames⟩, fun s hs t ht => ?_⟩
        rcases List.mem_cons.mp ht with rfl | ht
        · exact hearlier s hs
        · exact lt_trans (hearlier s hs) (hlater t ht)
      · rw [hkeys, List.mem_append, List.mem_cons, hmem, Entries.keys_cons, List.mem_cons,
          List.mem_append, List.mem_append]
        cases counterpart <;> simp <;> tauto
      · have hexpected : ∀ s, Entries.get? ((key, value) :: rest) s =
            if s < key then none else if key < s then Entries.get? rest s else some value :=
          Entries.get?_around (List.forall_mem_nil _) hfirst (some value)
        have hactual := Entries.get?_around hbefore hafter counterpart
        rw [← hsplit] at hactual
        simp only [hexpected, hactual]
        rw [hsplit, memberDifferences_cons hbefore hafter, hdifferences,
          List.flatMap_append, List.flatMap_cons]
        congr 1
        · rw [Entries.keys, List.flatMap_map, List.map_eq_flatMap]
          refine List.flatMap_congr fun entry hentry => ?_
          have hget := Entries.get?_of_mem (Entries.Sorted.keys_nodup hsortedBefore) hentry
          rw [if_pos (hbefore entry hentry), if_pos (hbefore entry hentry), hget, between]
        · congr 1
          · simp only [lt_irrefl, if_false]
          · refine List.flatMap_congr fun s hs => ?_
            simp only [if_neg (not_lt_of_gt (hlater s hs)), if_pos (hlater s hs)]

/-- The items of two arrays of one length are compared under their indices. -/
theorem itemDifferences_eq {xs ys : List Json} (length : xs.length = ys.length)
    (place : Pointer) (start : Nat) :
    itemDifferences place start xs ys = (Entries.keys (numbered start xs)).flatMap fun s =>
      between (place ++ [s]) (Entries.get? (numbered start xs) s)
        (Entries.get? (numbered start ys) s) := by
  induction xs generalizing ys start with
  | nil => rw [itemDifferences] <;> simp [numbered]
  | cons x xs ih =>
      cases ys with
      | nil => simp at length
      | cons y ys =>
          have hnodup := Json.nodup_keys_numbered start (x :: xs)
          rw [itemDifferences, ih (Nat.succ.inj length) (start + 1)]
          simp only [numbered, Entries.keys_cons, List.nodup_cons, List.flatMap_cons,
            Entries.get?_cons, if_pos] at hnodup ⊢
          congr 1
          refine List.flatMap_congr fun s hs => ?_
          have hne : toString start ≠ s := fun heq => hnodup.1 (heq ▸ hs)
          rw [if_neg hne, if_neg hne]

/-- **Values that can be compared part by part differ where their parts differ.** -/
theorem exists_differencesAt_eq (h : Comparable e a) (he : e.Ordered) (ha : a.Ordered) :
    ∃ names : List String, names.Nodup ∧
      (∀ s, s ∈ names ↔ s ∈ Entries.keys e.parts ∨ s ∈ Entries.keys a.parts) ∧
      ∀ place, differencesAt place e a = names.flatMap fun s =>
        between (place ++ [s]) (e.part? s) (a.part? s) := by
  cases h with
  | objects xs ys =>
      obtain ⟨names, hsorted, hmem, hdifferences⟩ :=
        exists_memberDifferences_eq he.sorted ha.sorted
      exact ⟨names, hsorted.imp fun hlt => ne_of_lt hlt, hmem, hdifferences⟩
  | @arrays xs ys length =>
      have hkeys : Entries.keys (numbered 0 ys) = Entries.keys (numbered 0 xs) := by
        rw [Json.keys_numbered, Json.keys_numbered, length]
      refine ⟨_, Json.nodup_keys_numbered 0 xs, fun s => ?_, fun place => ?_⟩
      · rw [Json.parts, Json.parts, hkeys, or_self]
      · rw [differencesAt, if_pos length, itemDifferences_eq length]
        rfl

/-- A missing value is the same at every place. -/
theorem between_eq_of {e a : Option Json} {place : Pointer}
    (h : ∀ x ∈ e, ∀ y ∈ a, differencesAt place x y =
      (differences x y).map (Difference.below place)) :
    between place e a = (between [] e a).map (Difference.below place) := by
  cases e <;> cases a
  · rfl
  · simp [between, Difference.below]
  · simp [between, Difference.below]
  · exact h _ rfl _ rfl

/-- **The differences of two values at a place are their differences below it.** -/
theorem differencesAt_eq (he : e.Ordered) (ha : a.Ordered) (place : Pointer) :
    differencesAt place e a = (differences e a).map (Difference.below place) := by
  induction e using Json.induction_parts generalizing a place with
  | parts e ih =>
      by_cases h : Comparable e a
      · obtain ⟨names, -, -, hdifferences⟩ := exists_differencesAt_eq h he ha
        have hpart : ∀ (p : Pointer) (s : String), between p (e.part? s) (a.part? s) =
            (between [] (e.part? s) (a.part? s)).map (Difference.below p) := fun p s =>
          between_eq_of fun x hx y hy => ih s x hx (he.of_part? hx) (ha.of_part? hy) p
        rw [differences, hdifferences, hdifferences, List.map_flatMap]
        refine List.flatMap_congr fun s _ => ?_
        rw [hpart (place ++ [s]), hpart ([] ++ [s]), List.map_map]
        refine List.map_congr_left fun d _ => ?_
        rw [Function.comp_apply, List.nil_append, Difference.below_below]
      · rw [differences, differencesAt_of_not_comparable h, differencesAt_of_not_comparable h]
        split <;> simp [Difference.below]

/-- The differences of two values are those of their parts, with the names in front. -/
theorem exists_differences_eq (h : Comparable e a) (he : e.Ordered) (ha : a.Ordered) :
    ∃ names : List String, names.Nodup ∧
      (∀ s, s ∈ names ↔ s ∈ Entries.keys e.parts ∨ s ∈ Entries.keys a.parts) ∧
      differences e a = names.flatMap fun s =>
        (between [] (e.part? s) (a.part? s)).map (Difference.below [s]) := by
  obtain ⟨names, hnodup, hmem, hdifferences⟩ := exists_differencesAt_eq h he ha
  refine ⟨names, hnodup, hmem, (hdifferences []).trans (List.flatMap_congr fun s _ => ?_)⟩
  exact between_eq_of fun x hx y hy => differencesAt_eq (he.of_part? hx) (ha.of_part? hy) [s]

theorem mem_differences_iff (h : Comparable e a) (he : e.Ordered) (ha : a.Ordered) :
    d ∈ differences e a ↔
      ∃ s, ∃ d' ∈ between [] (e.part? s) (a.part? s), d'.below [s] = d := by
  obtain ⟨names, -, hmem, hdifferences⟩ := exists_differences_eq h he ha
  rw [hdifferences, List.mem_flatMap]
  constructor
  · rintro ⟨s, -, hd⟩
    exact ⟨s, List.mem_map.mp hd⟩
  · rintro ⟨s, d', hd', rfl⟩
    refine ⟨s, ?_, List.mem_map.mpr ⟨d', hd', rfl⟩⟩
    rw [hmem]
    by_contra hnone
    rw [not_or] at hnone
    rw [Json.part?_eq_none_iff.mpr hnone.1, Json.part?_eq_none_iff.mpr hnone.2] at hd'
    simp [between] at hd'

theorem mem_differences_of_not_comparable (h : ¬ Comparable e a) :
    d ∈ differences e a ↔ (e == a) = false ∧ d = .changed [] := by
  rw [differences, differencesAt_of_not_comparable h]
  cases e == a <;> simp

/-! ### Places apart -/

/-- Neither place is on the way to the other. -/
def Apart (d d' : Difference) : Prop :=
  ¬ d.place <+: d'.place ∧ ¬ d'.place <+: d.place

@[simp] theorem apart_below {s t : String} :
    Apart (d.below [s]) (d'.below [t]) ↔ (s = t → Apart d d') := by
  by_cases hst : s = t
  · simp [Apart, hst]
  · simp [Apart, hst, Ne.symm hst]

/-- **No difference lies below another.** -/
theorem pairwise_apart (he : e.Ordered) (ha : a.Ordered) :
    (differences e a).Pairwise Apart := by
  induction e using Json.induction_parts generalizing a with
  | parts e ih =>
      by_cases h : Comparable e a
      · obtain ⟨names, hnodup, -, hdifferences⟩ := exists_differences_eq h he ha
        rw [hdifferences, List.pairwise_flatMap]
        refine ⟨fun s _ => List.pairwise_map.mpr ?_, hnodup.imp fun hne => ?_⟩
        · have hpart : (between [] (e.part? s) (a.part? s)).Pairwise Apart := by
            cases hx : e.part? s <;> cases hy : a.part? s
            · exact List.Pairwise.nil
            · exact List.pairwise_singleton _ _
            · exact List.pairwise_singleton _ _
            · exact ih s _ hx (he.of_part? hx) (ha.of_part? hy)
          exact hpart.imp fun hapart => apart_below.mpr fun _ => hapart
        · simp [hne]
      · rw [differences, differencesAt_of_not_comparable h]
        split
        · exact List.Pairwise.nil
        · exact List.pairwise_singleton _ _

/-! ### What a difference says -/

/-- What the kind and the place of a difference promise about the two values. -/
def Difference.Holds (e a : Json) : Difference → Prop
  | .changed place => ∃ x y, Pointer.resolve? e place = some x ∧
      Pointer.resolve? a place = some y ∧ (x == y) = false ∧ ¬ Comparable x y
  | .missing place => ∃ parent key xs ys, place = parent ++ [key] ∧
      Pointer.resolve? e parent = some (.object xs) ∧
      Pointer.resolve? a parent = some (.object ys) ∧
      (Pointer.resolve? e place).isSome ∧ Pointer.resolve? a place = none
  | .extra place => ∃ parent key xs ys, place = parent ++ [key] ∧
      Pointer.resolve? e parent = some (.object xs) ∧
      Pointer.resolve? a parent = some (.object ys) ∧
      Pointer.resolve? e place = none ∧ (Pointer.resolve? a place).isSome

/-- A promise about two parts is one about the values they are parts of. -/
theorem Difference.Holds.below {x y : Json} {s : String} (h : d.Holds x y)
    (he : Pointer.step? e s = some x) (ha : Pointer.step? a s = some y) :
    (d.below [s]).Holds e a := by
  have hresolve : ∀ place, Pointer.resolve? e (s :: place) = Pointer.resolve? x place ∧
      Pointer.resolve? a (s :: place) = Pointer.resolve? y place := fun place => by
    rw [Pointer.resolve?_cons, Pointer.resolve?_cons, he, ha]
    exact ⟨rfl, rfl⟩
  cases d with
  | changed place =>
      show ∃ _ _, Pointer.resolve? e (s :: place) = _ ∧ Pointer.resolve? a (s :: place) = _ ∧ _
      rw [(hresolve place).1, (hresolve place).2]
      exact h
  | missing place | extra place =>
      obtain ⟨parent, key, xs, ys, rfl, hxs, hys, hends⟩ := h
      refine ⟨s :: parent, key, xs, ys, rfl, (hresolve parent).1.trans hxs,
        (hresolve parent).2.trans hys, ?_⟩
      show _ ∧ _
      rw [show [s] ++ (parent ++ [key]) = s :: (parent ++ [key]) from rfl,
        (hresolve _).1, (hresolve _).2]
      exact hends

/-- Of two arrays of one length, both have an item under an index or neither has. -/
theorem Comparable.isObject_of_part? {s : String} (h : Comparable e a)
    (hpart : (e.part? s).isSome ≠ (a.part? s).isSome) :
    ∃ xs ys, e = .object xs ∧ a = .object ys := by
  cases h with
  | objects xs ys => exact ⟨xs, ys, rfl, rfl⟩
  | arrays length =>
      refine absurd (Bool.eq_iff_iff.mpr ?_) hpart
      rw [Json.isSome_part?_iff, Json.isSome_part?_iff, Json.mem_keys_array,
        Json.mem_keys_array, length]

/-- Where something stands under a name, a pointer finds it by that name. -/
theorem Comparable.step?_eq_part? {s : String} (h : Comparable e a) (hi : e.Indexable)
    (hs : (e.part? s).isSome ∨ (a.part? s).isSome) :
    Pointer.step? e s = e.part? s ∧ Pointer.step? a s = a.part? s := by
  cases h with
  | objects xs ys => exact ⟨rfl, rfl⟩
  | @arrays xs ys length =>
      have hbound := (Json.indexable_array.mp hi).1
      simp only [Json.isSome_part?_iff, Json.mem_keys_array, ← length, or_self] at hs
      obtain ⟨i, hlt, rfl⟩ := hs
      exact ⟨Pointer.step?_array (by omega), Pointer.step?_array (by omega)⟩

/-- **Every difference says the truth.** -/
theorem holds_of_mem (he : e.Ordered) (ha : a.Ordered) (hi : e.Indexable)
    (hd : d ∈ differences e a) : d.Holds e a := by
  induction e using Json.induction_parts generalizing a d with
  | parts e ih =>
      by_cases h : Comparable e a
      · obtain ⟨s, d', hd', rfl⟩ := (mem_differences_iff h he ha).mp hd
        cases hx : e.part? s <;> cases hy : a.part? s <;> rw [hx, hy] at hd'
        case none.none => simp [between] at hd'
        case some.some x y =>
          obtain ⟨hstep, hstep'⟩ := h.step?_eq_part? (s := s) hi (by simp [hx])
          exact (ih s x hx (he.of_part? hx) (ha.of_part? hy) (hi.of_part? hx) hd').below
            (hstep.trans hx) (hstep'.trans hy)
        -- a name that only one of them has: both are objects, and the name is a key
        all_goals
          obtain ⟨xs, ys, rfl, rfl⟩ := h.isObject_of_part? (s := s) (by simp [hx, hy])
          obtain rfl := List.mem_singleton.mp hd'
          have hxs : Entries.get? xs s = _ := hx
          have hys : Entries.get? ys s = _ := hy
          exact ⟨[], s, xs, ys, rfl, rfl, rfl, by simp [hxs], by simp [hys]⟩
      · obtain ⟨hne, rfl⟩ := (mem_differences_of_not_comparable h).mp hd
        exact ⟨e, a, Pointer.resolve?_nil e, Pointer.resolve?_nil a, hne, h⟩

/-! ### No differences -/

theorem memberDifferences_eq_nil_iff {xs ys : List (String × Json)} (place : Pointer)
    (h : ∀ entry ∈ xs, ∀ (a : Json) (place : Pointer),
      differencesAt place entry.2 a = [] ↔ (entry.2 == a) = true) :
    memberDifferences place xs ys = [] ↔
      List.Forall₂ (fun x y => x.1 = y.1 ∧ (x.2 == y.2) = true) xs ys := by
  induction xs generalizing ys with
  | nil => cases ys <;> simp [memberDifferences]
  | cons first rest ih =>
      obtain ⟨key, value⟩ := first
      obtain ⟨hvalue, hrest⟩ := List.forall_mem_cons.mp h
      cases ys with
      | nil => simp [memberDifferences]
      | cons y ys =>
          obtain ⟨other, counterpart⟩ := y
          rw [memberDifferences, List.forall₂_cons]
          by_cases hlt : other < key
          · rw [List.takeWhile_cons_of_pos (by rwa [decide_eq_true_eq])]
            have hne : key ≠ other := ne_of_gt hlt
            simp only [List.map_cons, hne, false_and, iff_false]
            split
            · split <;> simp
            · simp
          · rw [List.takeWhile_cons_of_neg (by rwa [decide_eq_true_eq])]
            by_cases heq : other = key
            · subst heq
              simp [hvalue counterpart, ih hrest]
            · simp [heq, Ne.symm heq]

theorem itemDifferences_eq_nil_iff {xs ys : List Json} (length : xs.length = ys.length)
    (place : Pointer) (start : Nat)
    (h : ∀ item ∈ xs, ∀ (a : Json) (place : Pointer),
      differencesAt place item a = [] ↔ (item == a) = true) :
    itemDifferences place start xs ys = [] ↔
      List.Forall₂ (fun x y => (x == y) = true) xs ys := by
  induction xs generalizing ys start with
  | nil =>
      obtain rfl := List.eq_nil_of_length_eq_zero length.symm
      simp [itemDifferences]
  | cons x xs ih =>
      cases ys with
      | nil => simp at length
      | cons y ys =>
          obtain ⟨hx, hrest⟩ := List.forall_mem_cons.mp h
          rw [itemDifferences, List.append_eq_nil_iff, hx, ih (Nat.succ.inj length) _ hrest,
            List.forall₂_cons]

/-- **Values have no differences exactly if they are equal.** -/
theorem differencesAt_eq_nil_iff (place : Pointer) :
    differencesAt place e a = [] ↔ (e == a) = true := by
  induction e generalizing a place with
  | array xs ih =>
      by_cases h : Comparable (.array xs) a
      · cases h with
        | arrays length =>
            rw [differencesAt, if_pos length, Json.array_beq_array]
            exact itemDifferences_eq_nil_iff length place 0 fun x hx a place => ih x hx place
      · rw [differencesAt_of_not_comparable h]
        simp
  | object xs ih =>
      by_cases h : Comparable (.object xs) a
      · cases h with
        | objects _ ys =>
            rw [differencesAt, Json.object_beq_object]
            exact memberDifferences_eq_nil_iff place fun entry h a place => ih entry h place
      · rw [differencesAt_of_not_comparable h]
        simp
  | _ =>
      rw [differencesAt_of_not_comparable (by rintro ⟨⟩)]
      simp

end Diff

end SchemaBundle
