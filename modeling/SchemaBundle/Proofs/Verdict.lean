/-
What a comparison of values decides.

The verdict compares texts and the places compare values, and the two notions of equality meet
in all but one point.  Where members are in order, equal canonical texts come from the same
value: the layout is read in one way only, and so is the text of a number.  Equality of values
is coarser in the signs of zeros and in nothing else.  So values that are not equal never match,
and their differences are told; and of values that are equal exactly those do not match that
have a zero with another sign, and no place is told of that.
-/
import SchemaBundle.Proofs.Canonical
import SchemaBundle.Proofs.Decimal.Text
import SchemaBundle.Proofs.Differences

namespace SchemaBundle

/-- Numbers that are printed alike are the same. -/
theorem Number.Alike.eq {n m : Number} (h : n.Alike m) : n = m := by
  cases n with
  | int a =>
      cases m with
      | int b => rw [Number.alike_int_iff.mp h]
      | double y => exact absurd h (Number.not_alike_kinds a y)
  | double x =>
      cases m with
      | int b => exact absurd h.symm (Number.not_alike_kinds b x)
      | double y => rw [Double.text_injective Json.exponentStyle h.2]

theorem Double.isZero_eq_of_sameValue {x y : Double} (h : x.sameValue y = true) :
    x.isZero = y.isZero := by
  simp only [Double.sameValue, Bool.and_eq_true, beq_iff_eq] at h
  rw [Double.isZero, Double.isZero, h.1.1]

/-- Doubles of one value differ in the sign of a zero at most. -/
theorem Double.eq_of_sameValue {x y : Double} (h : x.sameValue y = true)
    (hsign : x.isZero = true → x.negative = y.negative) : x = y := by
  simp only [Double.sameValue, Bool.and_eq_true, Bool.or_eq_true, beq_iff_eq] at h
  obtain ⟨⟨hm, he⟩, hn⟩ := h
  exact Double.eq_of_parts (hn.elim id hsign) hm he

namespace Json

/-! ### The signs of zeros -/

mutual

/-- The signs of the zeros in a value, from the first to the last; a whole number has none. -/
def zeroSigns : Json → List Bool
  | .number (.double x) => if x.isZero then [x.negative] else []
  | .array items => zeroSignsOfItems items
  | .object members => zeroSignsOfMembers members
  | _ => []

/-- The signs of the zeros in items. -/
def zeroSignsOfItems : List Json → List Bool
  | [] => []
  | item :: rest => item.zeroSigns ++ zeroSignsOfItems rest

/-- The signs of the zeros in the values of members. -/
def zeroSignsOfMembers : List (String × Json) → List Bool
  | [] => []
  | (_, value) :: rest => value.zeroSigns ++ zeroSignsOfMembers rest

end

variable {v w : Json} {xs ys : List Json}

theorem zeroSignsOfMembers_eq (members : List (String × Json)) :
    zeroSignsOfMembers members = zeroSignsOfItems (members.map Prod.snd) := by
  induction members with
  | nil => rfl
  | cons entry rest ih => rw [zeroSignsOfMembers, ih, List.map_cons, zeroSignsOfItems]

/-- The values of equal members are equal. -/
theorem forall₂_values {xs ys : List (String × Json)}
    (h : List.Forall₂ (fun x y => x.1 = y.1 ∧ (x.2 == y.2) = true) xs ys) :
    List.Forall₂ (fun x y => (x == y) = true) (xs.map Prod.snd) (ys.map Prod.snd) := by
  rw [List.forall₂_map_left_iff, List.forall₂_map_right_iff]
  exact h.imp fun x y hxy => hxy.2

theorem length_zeroSignsOfItems (h : List.Forall₂ (fun x y => (x == y) = true) xs ys)
    (ih : ∀ x ∈ xs, ∀ y, (x == y) = true → x.zeroSigns.length = y.zeroSigns.length) :
    (zeroSignsOfItems xs).length = (zeroSignsOfItems ys).length := by
  induction h with
  | nil => rfl
  | @cons x y xs ys hxy _ ihrest =>
      obtain ⟨hx, hrest⟩ := List.forall_mem_cons.mp ih
      rw [zeroSignsOfItems, zeroSignsOfItems, List.length_append, List.length_append, hx y hxy,
        ihrest hrest]

/-- Equal values have zeros in the same places. -/
theorem length_zeroSigns_of_beq (h : (v == w) = true) :
    v.zeroSigns.length = w.zeroSigns.length := by
  induction v generalizing w with
  | array xs ih =>
      obtain ⟨ys, rfl, hall⟩ := eq_array_of_beq h
      exact length_zeroSignsOfItems hall fun x hx y hxy => ih x hx hxy
  | object xs ih =>
      obtain ⟨ys, rfl, hall⟩ := eq_object_of_beq h
      rw [zeroSigns, zeroSigns, zeroSignsOfMembers_eq, zeroSignsOfMembers_eq]
      exact length_zeroSignsOfItems (forall₂_values hall)
        (List.forall_mem_map.mpr fun entry hentry y hxy => ih entry hentry hxy)
  | number n =>
      cases w with
      | number m =>
          cases n <;> cases m
          case double.double x y =>
            have hzero : x.isZero = y.isZero := Double.isZero_eq_of_sameValue h
            rw [zeroSigns, zeroSigns, hzero]
            split <;> rfl
          case int.int => rfl
          all_goals exact absurd h Bool.false_ne_true
      | _ => exact absurd h Bool.false_ne_true
  | _ => cases w <;> first | rfl | exact absurd h Bool.false_ne_true

theorem eq_of_zeroSignsOfItems (h : List.Forall₂ (fun x y => (x == y) = true) xs ys)
    (hzeros : zeroSignsOfItems xs = zeroSignsOfItems ys)
    (ih : ∀ x ∈ xs, ∀ y, (x == y) = true → x.zeroSigns = y.zeroSigns → x = y) : xs = ys := by
  induction h with
  | nil => rfl
  | @cons x y xs ys hxy _ ihrest =>
      obtain ⟨hx, hrest⟩ := List.forall_mem_cons.mp ih
      rw [zeroSignsOfItems, zeroSignsOfItems] at hzeros
      obtain ⟨hfirst, hothers⟩ := List.append_inj hzeros (length_zeroSigns_of_beq hxy)
      rw [hx y hxy hfirst, ihrest hothers hrest]

theorem eq_of_zeroSigns (h : (v == w) = true) (hzeros : v.zeroSigns = w.zeroSigns) : v = w := by
  induction v generalizing w with
  | array xs ih =>
      obtain ⟨ys, rfl, hall⟩ := eq_array_of_beq h
      rw [eq_of_zeroSignsOfItems hall hzeros fun x hx y hxy heq => ih x hx hxy heq]
  | object xs ih =>
      obtain ⟨ys, rfl, hall⟩ := eq_object_of_beq h
      rw [zeroSigns, zeroSigns, zeroSignsOfMembers_eq, zeroSignsOfMembers_eq] at hzeros
      have hvalues := eq_of_zeroSignsOfItems (forall₂_values hall) hzeros
        (List.forall_mem_map.mpr fun entry hentry y hxy heq => ih entry hentry hxy heq)
      have hkeys : xs.map Prod.fst = ys.map Prod.fst := by
        rw [← List.forall₂_eq_eq_eq, List.forall₂_map_left_iff, List.forall₂_map_right_iff]
        exact hall.imp fun x y hxy => hxy.1
      exact congrArg Json.object
        ((List.zip_of_prod hkeys hvalues).trans (List.zip_of_prod rfl rfl).symm)
  | number n =>
      cases w with
      | number m =>
          cases n <;> cases m
          case double.double x y =>
            rw [Double.eq_of_sameValue h fun hzero => ?_]
            rw [zeroSigns, zeroSigns, ← Double.isZero_eq_of_sameValue h, if_pos hzero,
              if_pos hzero] at hzeros
            exact List.singleton_inj.mp hzeros
          case int.int a b => rw [beq_iff_eq.mp (show (a == b) = true from h)]
          all_goals exact absurd h Bool.false_ne_true
      | _ => exact absurd h Bool.false_ne_true
  | null => cases w <;> first | rfl | exact absurd h Bool.false_ne_true
  | bool b =>
      cases w with
      | bool b' => rw [beq_iff_eq.mp (show (b == b') = true from h)]
      | _ => exact absurd h Bool.false_ne_true
  | string s => exact (eq_string_of_beq h).symm

/-- **Equality of values is identity but for the signs of zeros.** -/
theorem eq_iff_beq : v = w ↔ (v == w) = true ∧ v.zeroSigns = w.zeroSigns := by
  constructor
  · rintro rfl
    exact ⟨v.beq_refl, rfl⟩
  · exact fun h => eq_of_zeroSigns h.1 h.2

/-! ### Identity of ordered values -/

theorem Ordered.distinct (h : v.Ordered) : v.Distinct := by
  induction h with
  | null => exact .null
  | bool b => exact .bool b
  | number n => exact .number n
  | string s => exact .string s
  | array _ ih => exact .array ih
  | object hsorted _ ih => exact .object hsorted.keys_nodup ih

/-- **Where members are in order, the same tree is the same value.** -/
theorem SameTree.eq (h : SameTree v w) (hv : v.Ordered) (hw : w.Ordered) : v = w := by
  induction h with
  | null | bool _ | string _ => rfl
  | number h => rw [h.eq]
  | array length h ih =>
      rw [ordered_array] at hv hw
      congr 1
      refine List.ext_getElem length fun i hx hy => ?_
      exact ih i _ _ (List.getElem?_eq_getElem hx) (List.getElem?_eq_getElem hy)
        (hv _ (List.getElem_mem hx)) (hw _ (List.getElem_mem hy))
  | @object xs ys keys h ih =>
      rw [ordered_object] at hv hw
      have hmembers := Entries.forall₂_of_get? (hv.1.keys_eq hw.1 keys) hv.1.keys_nodup
        fun key x y hx hy => ih key x y hx hy (hv.2 _ (Entries.mem_of_get? hx))
          (hw.2 _ (Entries.mem_of_get? hy))
      congr 1
      rw [← List.forall₂_eq_eq_eq]
      exact hmembers.imp fun x y hxy => Prod.ext hxy.1 hxy.2

/-- Where members are in order, canonical text is injective. -/
theorem canonical_inj (hv : v.Ordered) (hw : w.Ordered) : v.canonical = w.canonical ↔ v = w := by
  rw [canonical_eq_iff hv.distinct hw.distinct]
  exact ⟨fun h => h.eq hv hw, fun h => h ▸ .refl v⟩

end Json

namespace Diff

variable {e a : Json}

/-- Texts have no places. -/
theorem places_compareTexts (options : Options) (expected actual : String) :
    (compareTexts options expected actual).places = [] := by
  unfold compareTexts
  split <;> rfl

/-- **The verdict on two values, and what is told of them.** They match exactly if they are equal
and have the same signs at all zeros. No difference is told exactly if they are equal. -/
theorem compareValues_verdict (options : Options) (he : e.Ordered) (ha : a.Ordered) :
    ((compareValues options e a).isMatch = true ↔
      (e == a) = true ∧ e.zeroSigns = a.zeroSigns) ∧
    ((compareValues options e a).places = [] ↔ (e == a) = true) ∧
    ((e == a) = false →
      (compareValues options e a).isMatch = false ∧ (compareValues options e a).places ≠ []) := by
  have hmatch : (compareTexts options e.canonical a.canonical).isMatch = true ↔
      (e == a) = true ∧ e.zeroSigns = a.zeroSigns := by
    rw [isMatch_compareTexts, Json.canonical_inj he ha, Json.eq_iff_beq]
  have hplaces : (compareValues options e a).places = [] ↔ (e == a) = true := by
    unfold compareValues
    dsimp only
    split
    · rename_i hsame
      simp [places_compareTexts, (hmatch.mp hsame).1]
    · exact differencesAt_eq_nil_iff []
  have hverdict : (compareValues options e a).isMatch =
      (compareTexts options e.canonical a.canonical).isMatch := by
    unfold compareValues
    dsimp only
    split <;> rfl
  rw [hverdict]
  refine ⟨hmatch, hplaces, fun hne => ⟨?_, ?_⟩⟩
  · rw [Bool.eq_false_iff, ne_eq, hmatch, hne]
    simp
  · rw [ne_eq, hplaces, hne]
    exact Bool.false_ne_true

/-- A list with a zero that has a sign. -/
def reading (last : Nat) : Json :=
  .object [("values", .array [.number (.double (.zero true)), .ofNat last])]

theorem compareValues_verdict_reading :
    (compareValues .standard (reading 1) (reading 1)).isMatch = true ∧
      (compareValues .standard (reading 1) (reading 2)).isMatch = false ∧
      (compareValues .standard (reading 1) (reading 2)).places ≠ [] := by
  have hordered : ∀ last, (reading last).Ordered := by
    intro last
    simp [reading, Entries.Sorted, Json.ofNat, Json.Ordered.number]
  obtain ⟨hmatch, -, -⟩ := compareValues_verdict .standard (hordered 1) (hordered 1)
  obtain ⟨-, -, hdiffer⟩ := compareValues_verdict .standard (hordered 1) (hordered 2)
  exact ⟨hmatch.mpr ⟨Json.beq_refl _, rfl⟩, hdiffer (by decide +kernel)⟩

/-- Zeros of different signs are equal numbers with different texts: they do not match, and there
is no difference to tell. -/
theorem zeros_do_not_match :
    (Json.number (.double (.zero false)) == Json.number (.double (.zero true))) = true ∧
    (compareValues .standard (.number (.double (.zero false)))
      (.number (.double (.zero true)))).isMatch = false ∧
    (compareValues .standard (.number (.double (.zero false)))
      (.number (.double (.zero true)))).places = [] := by
  decide +kernel

end Diff

end SchemaBundle
