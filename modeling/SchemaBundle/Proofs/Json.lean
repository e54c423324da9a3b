/-
Values, their references, and when two values are the same.

Equality of values is not identity: the two zeros are equal numbers and different
doubles.  What is shown here is that nothing an embedding does can tell equal values
apart.  They hold the same reference texts in the same order, they stay equal when
those texts are changed in the same way, and every pointer finds equal values in them.

Changing reference texts is the only thing that ever happens to a value, so the other
half of the file says what `mapRefs` leaves alone: every pointer that led somewhere
before leads to the changed value afterwards.
-/
import Mathlib.Data.List.Forall2
import SchemaBundle.Json.Refs
import SchemaBundle.Pointer
import SchemaBundle.Proofs.Entries

namespace SchemaBundle

/-! ### Numbers -/

theorem Double.sameValue_refl (x : Double) : x.sameValue x = true := by
  simp [Double.sameValue]

theorem Double.sameValue_symm {x y : Double} (h : x.sameValue y = true) :
    y.sameValue x = true := by
  simp only [Double.sameValue, Double.isZero, Bool.and_eq_true, Bool.or_eq_true,
    beq_iff_eq] at h ⊢
  obtain ⟨⟨hs, he⟩, hn⟩ := h
  exact ⟨⟨hs.symm, he.symm⟩, hn.imp Eq.symm fun hz => hs ▸ hz⟩

theorem Double.sameValue_trans {x y z : Double} (h : x.sameValue y = true)
    (h' : y.sameValue z = true) : x.sameValue z = true := by
  simp only [Double.sameValue, Double.isZero, Bool.and_eq_true, Bool.or_eq_true,
    beq_iff_eq] at h h' ⊢
  obtain ⟨⟨hs, he⟩, hn⟩ := h
  obtain ⟨⟨hs', he'⟩, hn'⟩ := h'
  refine ⟨⟨hs.trans hs', he.trans he'⟩, ?_⟩
  rcases hn with hn | hz
  · exact hn'.imp hn.trans fun hz => hs.trans hz
  · exact Or.inr hz

theorem Number.sameValue_refl (x : Number) : x.sameValue x = true := by
  cases x with
  | int n => simp [Number.sameValue]
  | double d => exact d.sameValue_refl

theorem Number.sameValue_symm {x y : Number} (h : x.sameValue y = true) :
    y.sameValue x = true := by
  cases x <;> cases y <;> simp only [Number.sameValue, beq_iff_eq, Bool.false_eq_true] at h ⊢
  · exact h.symm
  · exact Double.sameValue_symm h

theorem Number.sameValue_trans {x y z : Number} (h : x.sameValue y = true)
    (h' : y.sameValue z = true) : x.sameValue z = true := by
  cases x <;> cases y <;> cases z <;>
    simp only [Number.sameValue, beq_iff_eq, Bool.false_eq_true] at h h' ⊢
  · exact h.trans h'
  · exact Double.sameValue_trans h h'

namespace Json

/-- What holds of every value whose parts have it holds of all values. -/
@[elab_as_elim, induction_eliminator]
theorem induction {P : Json → Prop} (null : P .null) (bool : ∀ b, P (.bool b))
    (number : ∀ n, P (.number n)) (string : ∀ s, P (.string s))
    (array : ∀ items, (∀ item ∈ items, P item) → P (.array items))
    (object : ∀ members, (∀ entry ∈ members, P entry.2) → P (.object members)) (v : Json) :
    P v := by
  refine @Json.rec P (fun items => ∀ item ∈ items, P item)
    (fun members => ∀ entry ∈ members, P entry.2) (fun entry => P entry.2)
    null bool number string array object ?_ ?_ ?_ ?_ (fun _ _ h => h) v
  · intro item h
    simp at h
  · intro first rest hfirst hrest item h
    rcases List.mem_cons.mp h with rfl | h
    · exact hfirst
    · exact hrest item h
  · intro entry h
    simp at h
  · intro first rest hfirst hrest entry h
    rcases List.mem_cons.mp h with rfl | h
    · exact hfirst
    · exact hrest entry h

/-! ### Key order -/

/-- Every object in the value keeps its members in key order, no key twice. -/
inductive Ordered : Json → Prop
  | null : Ordered .null
  | bool (b : Bool) : Ordered (.bool b)
  | number (n : Number) : Ordered (.number n)
  | string (s : String) : Ordered (.string s)
  | array {items : List Json} (h : ∀ item ∈ items, Ordered item) : Ordered (.array items)
  | object {members : List (String × Json)} (sorted : Entries.Sorted members)
      (h : ∀ entry ∈ members, Ordered entry.2) : Ordered (.object members)

@[simp] theorem ordered_array {items : List Json} :
    Ordered (.array items) ↔ ∀ item ∈ items, Ordered item :=
  ⟨fun h => by cases h with | array h => exact h, .array⟩

@[simp] theorem ordered_object {members : List (String × Json)} :
    Ordered (.object members) ↔
      Entries.Sorted members ∧ ∀ entry ∈ members, Ordered entry.2 :=
  ⟨fun h => by cases h with | object sorted h => exact ⟨sorted, h⟩, fun h => .object h.1 h.2⟩

theorem Ordered.sorted {members : List (String × Json)} (h : Ordered (.object members)) :
    Entries.Sorted members := (ordered_object.mp h).1

theorem Ordered.of_get? {members : List (String × Json)} {key : String} {v : Json}
    (h : Ordered (.object members)) (hget : Entries.get? members key = some v) : Ordered v :=
  (ordered_object.mp h).2 _ (Entries.mem_of_get? hget)

/-! ### References -/

/-- The reference texts of a member: itself, or those of its value. -/
def refsAt (key : String) (v : Json) : List String :=
  match refText? key v with
  | some raw => [raw]
  | none => v.refs

/-- A member's value with its reference texts changed. -/
def mapRefsAt (f : String → String) (key : String) (v : Json) : Json :=
  match refText? key v with
  | some raw => .string (f raw)
  | none => v.mapRefs f

@[simp] theorem refs_array (items : List Json) : (Json.array items).refs = items.flatMap refs := by
  show refsOfItems items = _
  induction items with
  | nil => rfl
  | cons item rest ih => rw [refsOfItems, ih, List.flatMap_cons]

@[simp] theorem refs_object (members : List (String × Json)) :
    (Json.object members).refs = members.flatMap fun entry => refsAt entry.1 entry.2 := by
  show refsOfMembers members = _
  induction members with
  | nil => rfl
  | cons entry rest ih =>
      obtain ⟨key, v⟩ := entry
      rw [refsOfMembers, ih, List.flatMap_cons]
      rfl

@[simp] theorem mapRefs_array (f : String → String) (items : List Json) :
    (Json.array items).mapRefs f = .array (items.map (mapRefs f)) := by
  show Json.array (mapRefsOfItems f items) = _
  congr 1
  induction items with
  | nil => rfl
  | cons item rest ih => rw [mapRefsOfItems, ih, List.map_cons]

@[simp] theorem mapRefs_object (f : String → String) (members : List (String × Json)) :
    (Json.object members).mapRefs f =
      .object (members.map fun entry => (entry.1, mapRefsAt f entry.1 entry.2)) := by
  show Json.object (mapRefsOfMembers f members) = _
  congr 1
  induction members with
  | nil => rfl
  | cons entry rest ih =>
      obtain ⟨key, v⟩ := entry
      rw [mapRefsOfMembers, ih, List.map_cons]
      rfl

theorem refText?_eq_some {key raw : String} {v : Json} (h : refText? key v = some raw) :
    key = "$ref" ∧ v = .string raw := by
  unfold refText? at h
  split at h
  · rename_i hkey
    refine ⟨hkey, ?_⟩
    cases v <;> simp [string?] at h
    rw [h]
  · simp at h

/-- The texts of a value are among those of the member that holds it. -/
theorem mem_refsAt_of_mem_refs {key raw : String} {v : Json} (h : raw ∈ v.refs) :
    raw ∈ refsAt key v := by
  unfold refsAt
  split
  · rename_i text htext
    -- a text has no references of its own
    rw [(refText?_eq_some htext).2] at h
    simp [refs] at h
  · exact h

/-- An object under a key has its own references only. -/
theorem refsAt_object (key : String) (members : List (String × Json)) :
    refsAt key (.object members) = (Json.object members).refs := by
  unfold refsAt
  split
  · rename_i text htext
    have hobject := (refText?_eq_some htext).2
    simp at hobject
  · rfl

theorem mem_refs_of_get? {members : List (String × Json)} {key raw : String} {v : Json}
    (hget : Entries.get? members key = some v) (h : raw ∈ v.refs) :
    raw ∈ (Json.object members).refs := by
  rw [refs_object, List.mem_flatMap]
  exact ⟨_, Entries.mem_of_get? hget, mem_refsAt_of_mem_refs h⟩

/-- Setting a member brings in the references of its value, and no others. -/
theorem mem_refs_insert {members : List (String × Json)} {key raw : String} {v : Json}
    (h : raw ∈ (Json.object (Entries.insert key v members)).refs) :
    raw ∈ refsAt key v ∨ raw ∈ (Json.object members).refs := by
  rw [refs_object, List.mem_flatMap] at h
  obtain ⟨entry, hentry, hraw⟩ := h
  rcases Entries.mem_insert hentry with rfl | hmem
  · exact Or.inl hraw
  · rw [refs_object, List.mem_flatMap]
    exact Or.inr ⟨entry, hmem, hraw⟩

theorem string?_mapRefs (f : String → String) (v : Json) :
    (v.mapRefs f).string? = v.string? := by
  cases v <;> rfl

/-- **The references of a changed value are the changed references.** -/
theorem refs_mapRefs (f : String → String) (v : Json) : (v.mapRefs f).refs = v.refs.map f := by
  induction v with
  | null | bool _ | number _ | string _ => rfl
  | array items ih =>
      rw [mapRefs_array, refs_array, refs_array, List.flatMap_map, List.map_flatMap]
      exact List.flatMap_congr ih
  | object members ih =>
      rw [mapRefs_object, refs_object, refs_object, List.flatMap_map, List.map_flatMap]
      refine List.flatMap_congr fun entry hentry => ?_
      have hvalue := ih entry hentry
      unfold mapRefsAt
      cases hraw : refText? entry.1 entry.2 with
      | some raw =>
          obtain ⟨hkey, hv⟩ := refText?_eq_some hraw
          simp [refsAt, hkey, hv, refText?, string?]
      | none =>
          have hchanged : refText? entry.1 (entry.2.mapRefs f) = none := by
            rw [← hraw, refText?, refText?, string?_mapRefs]
          unfold refsAt
          rw [hraw, hchanged]
          exact hvalue

private theorem mapRefsAt_twice {f g : String → String} {v : Json} (key : String)
    (h : (v.mapRefs f).mapRefs g = v.mapRefs (g ∘ f)) :
    mapRefsAt g key (mapRefsAt f key v) = mapRefsAt (g ∘ f) key v := by
  unfold mapRefsAt
  cases hraw : refText? key v with
  | some raw =>
      obtain ⟨hkey, -⟩ := refText?_eq_some hraw
      simp [hkey, refText?, string?]
  | none =>
      have hchanged : refText? key (v.mapRefs f) = none := by
        rw [← hraw, refText?, refText?, string?_mapRefs]
      simp only [hchanged, h]

/-- Two changes are one. -/
theorem mapRefs_mapRefs (f g : String → String) (v : Json) :
    (v.mapRefs f).mapRefs g = v.mapRefs (g ∘ f) := by
  induction v with
  | null | bool _ | number _ | string _ => rfl
  | array items ih =>
      rw [mapRefs_array, mapRefs_array, mapRefs_array, List.map_map]
      congr 1
      exact List.map_congr_left ih
  | object members ih =>
      rw [mapRefs_object, mapRefs_object, mapRefs_object, List.map_map]
      congr 1
      refine List.map_congr_left fun entry hentry => ?_
      exact congrArg (Prod.mk entry.1) (mapRefsAt_twice entry.1 (ih entry hentry))

theorem mapRefsAt_mapRefsAt (f g : String → String) (key : String) (v : Json) :
    mapRefsAt g key (mapRefsAt f key v) = mapRefsAt (g ∘ f) key v :=
  mapRefsAt_twice key (mapRefs_mapRefs f g v)

theorem mapRefs_id (v : Json) : v.mapRefs id = v := by
  induction v with
  | null | bool _ | number _ | string _ => rfl
  | array items ih =>
      rw [mapRefs_array, List.map_congr_left ih, List.map_id']
  | object members ih =>
      have hmembers : ∀ entry ∈ members, (entry.1, mapRefsAt id entry.1 entry.2) = entry := by
        intro entry hentry
        unfold mapRefsAt
        cases hraw : refText? entry.1 entry.2 with
        | some raw =>
            simp only [id]
            rw [← (refText?_eq_some hraw).2]
        | none =>
            simp only
            rw [ih entry hentry]
      rw [mapRefs_object, List.map_congr_left hmembers, List.map_id']

/-- The change shows only in the texts that the value holds. -/
theorem mapRefs_congr {f g : String → String} (v : Json) (h : ∀ raw ∈ v.refs, f raw = g raw) :
    v.mapRefs f = v.mapRefs g := by
  induction v with
  | null | bool _ | number _ | string _ => rfl
  | array items ih =>
      rw [mapRefs_array, mapRefs_array]
      congr 1
      refine List.map_congr_left fun item hitem => ih item hitem fun raw hraw => h raw ?_
      rw [refs_array]
      exact List.mem_flatMap.mpr ⟨item, hitem, hraw⟩
  | object members ih =>
      rw [mapRefs_object, mapRefs_object]
      congr 1
      refine List.map_congr_left fun entry hentry => ?_
      have hat : ∀ raw ∈ refsAt entry.1 entry.2, f raw = g raw := by
        intro raw hraw
        refine h raw ?_
        rw [refs_object]
        exact List.mem_flatMap.mpr ⟨entry, hentry, hraw⟩
      have hvalue := ih entry hentry
      unfold mapRefsAt
      unfold refsAt at hat
      cases hraw : refText? entry.1 entry.2 with
      | some raw =>
          rw [hraw] at hat
          simp only
          rw [hat raw (List.mem_singleton.mpr rfl)]
      | none =>
          rw [hraw] at hat
          simp only
          rw [hvalue hat]

/-- Changing references keeps the order of members. -/
theorem Ordered.mapRefs {v : Json} (h : v.Ordered) (f : String → String) :
    (v.mapRefs f).Ordered := by
  induction h with
  | null => exact .null
  | bool b => exact .bool b
  | number n => exact .number n
  | string s => exact .string s
  | array _ ih =>
      rw [mapRefs_array]
      exact .array (List.forall_mem_map.mpr ih)
  | object hsorted _ ih =>
      rw [mapRefs_object]
      refine .object (List.pairwise_map.mpr hsorted) (List.forall_mem_map.mpr fun entry hentry => ?_)
      show (mapRefsAt f entry.1 entry.2).Ordered
      unfold mapRefsAt
      split
      · exact .string _
      · exact ih entry hentry

/-! ### Equality -/

theorem beqItems_iff {xs ys : List Json} :
    beqItems xs ys = true ↔ List.Forall₂ (fun x y => (x == y) = true) xs ys := by
  induction xs generalizing ys with
  | nil => cases ys <;> simp [beqItems]
  | cons x xs ih =>
      cases ys with
      | nil => simp [beqItems]
      | cons y ys =>
          rw [List.forall₂_cons, ← ih]
          exact Bool.and_eq_true_iff

theorem beqMembers_iff {xs ys : List (String × Json)} :
    beqMembers xs ys = true ↔
      List.Forall₂ (fun x y => x.1 = y.1 ∧ (x.2 == y.2) = true) xs ys := by
  induction xs generalizing ys with
  | nil => cases ys <;> simp [beqMembers]
  | cons x xs ih =>
      cases ys with
      | nil => simp [beqMembers]
      | cons y ys =>
          rw [List.forall₂_cons, ← ih]
          show (x.1 == y.1 && beq x.2 y.2 && beqMembers xs ys) = true ↔ _
          rw [Bool.and_eq_true_iff, Bool.and_eq_true_iff, beq_iff_eq]
          exact Iff.rfl

@[simp] theorem array_beq_array {xs ys : List Json} :
    (Json.array xs == Json.array ys) = true ↔
      List.Forall₂ (fun x y => (x == y) = true) xs ys := beqItems_iff

@[simp] theorem object_beq_object {xs ys : List (String × Json)} :
    (Json.object xs == Json.object ys) = true ↔
      List.Forall₂ (fun x y => x.1 = y.1 ∧ (x.2 == y.2) = true) xs ys := beqMembers_iff

theorem eq_array_of_beq {xs : List Json} {v : Json} (h : (Json.array xs == v) = true) :
    ∃ ys, v = .array ys ∧ List.Forall₂ (fun x y => (x == y) = true) xs ys := by
  cases v with
  | array ys => exact ⟨ys, rfl, array_beq_array.mp h⟩
  | _ => exact absurd h Bool.false_ne_true

theorem eq_object_of_beq {xs : List (String × Json)} {v : Json}
    (h : (Json.object xs == v) = true) :
    ∃ ys, v = .object ys ∧
      List.Forall₂ (fun x y => x.1 = y.1 ∧ (x.2 == y.2) = true) xs ys := by
  cases v with
  | object ys => exact ⟨ys, rfl, object_beq_object.mp h⟩
  | _ => exact absurd h Bool.false_ne_true

theorem eq_string_of_beq {s : String} {v : Json} (h : (Json.string s == v) = true) :
    v = .string s := by
  cases v with
  | string t => rw [beq_iff_eq.mp (show (s == t) = true from h)]
  | _ => exact absurd h Bool.false_ne_true

protected theorem beq_refl (v : Json) : (v == v) = true := by
  induction v with
  | null => rfl
  | bool b => exact beq_self_eq_true b
  | number n => exact n.sameValue_refl
  | string s => exact beq_self_eq_true s
  | array items ih => exact array_beq_array.mpr (List.forall₂_same.mpr ih)
  | object members ih =>
      exact object_beq_object.mpr (List.forall₂_same.mpr fun entry h => ⟨rfl, ih entry h⟩)

private theorem forall₂_imp_of_mem {α β : Type} {R S : α → β → Prop} {xs : List α} {ys : List β}
    (h : List.Forall₂ R xs ys) (himp : ∀ x ∈ xs, ∀ y, R x y → S x y) : List.Forall₂ S xs ys := by
  induction h with
  | nil => exact List.Forall₂.nil
  | cons hxy _ ih =>
      exact List.Forall₂.cons (himp _ List.mem_cons_self _ hxy)
        (ih fun x hx => himp x (List.mem_cons_of_mem _ hx))

private theorem forall₂_trans_of_mem {α : Type} {R : α → α → Prop} {xs ys zs : List α}
    (h : List.Forall₂ R xs ys) (h' : List.Forall₂ R ys zs)
    (htrans : ∀ x ∈ xs, ∀ y z, R x y → R y z → R x z) : List.Forall₂ R xs zs := by
  induction h generalizing zs with
  | nil => exact h'
  | cons hxy _ ih =>
      cases h' with
      | cons hyz hrest =>
          exact List.Forall₂.cons (htrans _ List.mem_cons_self _ _ hxy hyz)
            (ih hrest fun x hx => htrans x (List.mem_cons_of_mem _ hx))

protected theorem beq_symm {v w : Json} (h : (v == w) = true) : (w == v) = true := by
  induction v generalizing w with
  | null => cases w <;> first | rfl | exact absurd h Bool.false_ne_true
  | bool b =>
      cases w with
      | bool b' => exact BEq.symm (α := Bool) h
      | _ => exact absurd h Bool.false_ne_true
  | number n =>
      cases w with
      | number n' => exact Number.sameValue_symm h
      | _ => exact absurd h Bool.false_ne_true
  | string s => rw [eq_string_of_beq h]; exact Json.beq_refl _
  | array items ih =>
      obtain ⟨ys, rfl, hall⟩ := eq_array_of_beq h
      exact array_beq_array.mpr (forall₂_imp_of_mem hall fun x hx y hxy => ih x hx hxy).flip
  | object members ih =>
      obtain ⟨ys, rfl, hall⟩ := eq_object_of_beq h
      exact object_beq_object.mpr
        (forall₂_imp_of_mem hall fun x hx y hxy => ⟨hxy.1.symm, ih x hx hxy.2⟩).flip

protected theorem beq_trans {u v w : Json} (h : (u == v) = true) (h' : (v == w) = true) :
    (u == w) = true := by
  induction u generalizing v w with
  | null =>
      cases v with
      | null => exact h'
      | _ => exact absurd h Bool.false_ne_true
  | bool b =>
      cases v with
      | bool b' => rw [beq_iff_eq.mp (show (b == b') = true from h)]; exact h'
      | _ => exact absurd h Bool.false_ne_true
  | number n =>
      cases v with
      | number n' =>
          cases w with
          | number n'' => exact Number.sameValue_trans h h'
          | _ => exact absurd h' Bool.false_ne_true
      | _ => exact absurd h Bool.false_ne_true
  | string s => rw [eq_string_of_beq h] at h'; exact h'
  | array items ih =>
      obtain ⟨ys, rfl, hall⟩ := eq_array_of_beq h
      obtain ⟨zs, rfl, hall'⟩ := eq_array_of_beq h'
      exact array_beq_array.mpr
        (forall₂_trans_of_mem hall hall' fun x hx y z hxy hyz => ih x hx hxy hyz)
  | object members ih =>
      obtain ⟨ys, rfl, hall⟩ := eq_object_of_beq h
      obtain ⟨zs, rfl, hall'⟩ := eq_object_of_beq h'
      exact object_beq_object.mpr (forall₂_trans_of_mem hall hall' fun x hx y z hxy hyz =>
        ⟨hxy.1.trans hyz.1, ih x hx hxy.2 hyz.2⟩)

instance : EquivBEq Json where
  rfl := Json.beq_refl _
  symm := Json.beq_symm
  trans := Json.beq_trans

/-! ### Equal values and their references -/

theorem string?_eq_of_beq {v w : Json} (h : (v == w) = true) : v.string? = w.string? := by
  cases v with
  | string s => rw [eq_string_of_beq h]
  | _ => cases w <;> first | rfl | exact absurd h Bool.false_ne_true

theorem refText?_eq_of_beq {v w : Json} (h : (v == w) = true) (key : String) :
    refText? key v = refText? key w := by
  unfold refText?
  rw [string?_eq_of_beq h]

theorem refs_eq_of_beq {v w : Json} (h : (v == w) = true) : v.refs = w.refs := by
  induction v generalizing w with
  | array items ih =>
      obtain ⟨ys, rfl, hall⟩ := eq_array_of_beq h
      rw [refs_array, refs_array]
      have hrefs := forall₂_imp_of_mem (S := fun x y => x.refs = y.refs) hall
        fun x hx y hxy => ih x hx hxy
      clear ih hall h
      induction hrefs with
      | nil => rfl
      | cons hxy _ ih => rw [List.flatMap_cons, List.flatMap_cons, hxy, ih]
  | object members ih =>
      obtain ⟨ys, rfl, hall⟩ := eq_object_of_beq h
      rw [refs_object, refs_object]
      have hrefs := forall₂_imp_of_mem (S := fun x y => refsAt x.1 x.2 = refsAt y.1 y.2) hall
        fun x hx y hxy => by
          unfold refsAt
          rw [← hxy.1, refText?_eq_of_beq hxy.2, ih x hx hxy.2]
      clear ih hall h
      induction hrefs with
      | nil => rfl
      | cons hxy _ ih => rw [List.flatMap_cons, List.flatMap_cons, hxy, ih]
  | _ => cases w <;> first | rfl | exact absurd h Bool.false_ne_true

theorem mapRefs_beq {v w : Json} (h : (v == w) = true) (f : String → String) :
    (v.mapRefs f == w.mapRefs f) = true := by
  induction v generalizing w with
  | array items ih =>
      obtain ⟨ys, rfl, hall⟩ := eq_array_of_beq h
      rw [mapRefs_array, mapRefs_array, array_beq_array, List.forall₂_map_left_iff,
        List.forall₂_map_right_iff]
      exact forall₂_imp_of_mem hall fun x hx y hxy => ih x hx hxy
  | object members ih =>
      obtain ⟨ys, rfl, hall⟩ := eq_object_of_beq h
      rw [mapRefs_object, mapRefs_object, object_beq_object, List.forall₂_map_left_iff,
        List.forall₂_map_right_iff]
      refine forall₂_imp_of_mem hall fun x hx y hxy => ⟨hxy.1, ?_⟩
      unfold mapRefsAt
      rw [← hxy.1, refText?_eq_of_beq hxy.2]
      split
      · exact BEq.rfl
      · exact ih x hx hxy.2
  | _ => cases w <;> exact h

end Json

end SchemaBundle
