/-
The differences say how to make the values equal.

To repair a difference is to write what the expected value has at its place into the actual
value, or to delete what the expected value does not have.  A repair changes one part of the
actual value and leaves its other parts, so of the differences one is gone and the others are
as they were.  Whatever the order in which all of them are repaired, none is left, and values
without differences are equal.
-/
import SchemaBundle.Proofs.Differences

namespace SchemaBundle

namespace Json

/-! ### Writing a part -/

/-- The value with something else under a name, or with nothing there.  An array keeps its
length, and what has no parts stays as it is. -/
def write (v : Json) (name : String) (new : Option Json) : Json :=
  match v, new with
  | .object members, some w => .object (Entries.insert name w members)
  | .object members, none => .object (Entries.erase members name)
  | .array items, some w => .array ((Pointer.arrayIndex? name).elim items (items.set · w))
  | v, _ => v

/-- The value with something else where a pointer leads, or with nothing there. -/
def writeAt (new : Option Json) : Pointer → Option Json → Option Json
  | [], _ => new
  | name :: rest, v => v.map fun v => v.write name (writeAt new rest (Pointer.step? v name))

theorem Ordered.write {v : Json} {new : Option Json} (hv : v.Ordered)
    (hnew : ∀ w ∈ new, w.Ordered) (name : String) : (v.write name new).Ordered := by
  cases hv with
  | object hsorted hmembers =>
      cases new with
      | some w =>
          refine .object (hsorted.insert name w) fun entry hentry => ?_
          rcases Entries.mem_insert hentry with rfl | hmem
          · exact hnew w rfl
          · exact hmembers entry hmem
      | none =>
          exact .object (hsorted.sublist (Entries.erase_sublist _ _)) fun entry hentry =>
            hmembers entry (Entries.mem_of_mem_erase hentry)
  | array hitems =>
      cases new with
      | some w =>
          refine .array fun item hitem => ?_
          cases hindex : Pointer.arrayIndex? name with
          | none => exact hitems item (by simpa [hindex] using hitem)
          | some i =>
              rw [hindex, Option.elim_some] at hitem
              rcases List.mem_or_eq_of_mem_set hitem with hmem | rfl
              · exact hitems item hmem
              · exact hnew item rfl
      | none => exact .array hitems
  | null => exact .null
  | bool b => exact .bool b
  | number n => exact .number n
  | string s => exact .string s

end Json

namespace Diff

open Json (Ordered part? numbered)

variable {e a : Json} {d d' : Difference}

/-- Writing the counterpart of a part leaves values that are compared part by part. -/
theorem Comparable.write (h : Comparable e a) (name : String) (new : Option Json) :
    Comparable e (a.write name new) := by
  cases h with
  | objects xs ys => cases new <;> exact .objects xs _
  | arrays length =>
      cases new with
      | none => exact .arrays length
      | some w =>
          refine .arrays ?_
          cases Pointer.arrayIndex? name <;> simp [length]

/-- **Writing changes one part.** In an array a part is there before and after. -/
theorem Comparable.part?_write {name : String} {new : Option Json} (h : Comparable e a)
    (ha : a.Ordered) (hi : e.Indexable) (hname : (e.part? name).isSome ∨ (a.part? name).isSome)
    (hnew : new.isSome = (e.part? name).isSome) (t : String) :
    (a.write name new).part? t = if name = t then new else a.part? t := by
  cases h with
  | objects xs ys =>
      cases new with
      | some w => exact Entries.get?_insert name w ys t
      | none =>
          show Entries.get? (Entries.erase ys name) t = _
          split
          · rename_i heq
            rw [← heq, ha.sorted.get?_erase_self]
          · rename_i hne
            exact Entries.get?_erase_ne hne
  | @arrays xs ys length =>
      have hbound := (Json.indexable_array.mp hi).1
      simp only [Json.isSome_part?_iff, Json.mem_keys_array, ← length, or_self] at hname
      have hsome : new.isSome := by
        rw [hnew, Json.isSome_part?_iff, Json.mem_keys_array]
        exact hname
      obtain ⟨i, hlt, rfl⟩ := hname
      obtain ⟨w, rfl⟩ := Option.isSome_iff_exists.mp hsome
      show Json.part? (.array ((Pointer.arrayIndex? (toString i)).elim ys (ys.set · w))) t = _
      rw [Pointer.arrayIndex?_toString (by omega), Option.elim_some]
      by_cases ht : t ∈ Entries.keys (Json.array ys).parts
      · obtain ⟨j, -, rfl⟩ := Json.mem_keys_array.mp ht
        rw [Json.part?_array, Json.part?_array, List.getElem?_set]
        simp only [Json.toString_injective.eq_iff, ← length, if_pos hlt]
      · have hne : toString i ≠ t := by
          rintro rfl
          exact ht (Json.mem_keys_array.mpr ⟨i, length ▸ hlt, rfl⟩)
        rw [if_neg hne, Json.part?_eq_none_iff.mpr ht, Json.part?_eq_none_iff,
          Json.mem_keys_array, List.length_set, ← Json.mem_keys_array]
        exact ht

/-! ### One repair -/

/-- The actual value after a repair: where values differ and where one is missing, the expected
value is copied, and an extra member is deleted. -/
def Difference.repair (e : Option Json) (d : Difference) (a : Option Json) : Option Json :=
  match d with
  | .changed place | .missing place =>
    Json.writeAt (e.bind (Pointer.resolve? · place)) place a
  | .extra place => Json.writeAt none place a

@[simp] theorem Difference.repair_changed (e : Json) (a : Option Json) :
    (Difference.changed []).repair (some e) a = some e :=
  Pointer.resolve?_nil e

@[simp] theorem Difference.repair_missing (e : Json) (a : Option Json) :
    (Difference.missing []).repair (some e) a = some e :=
  Pointer.resolve?_nil e

/-- A repair below a name is a repair of the part under that name. -/
theorem Difference.repair_below (d : Difference) (name : String) (e a : Json) :
    (d.below [name]).repair (some e) (some a) =
      some (a.write name (d.repair (Pointer.step? e name) (Pointer.step? a name))) := by
  have hresolve : ∀ place, (some e).bind (Pointer.resolve? · (name :: place)) =
      (Pointer.step? e name).bind (Pointer.resolve? · place) := fun place =>
    Pointer.resolve?_cons e name place
  cases d with
  | extra place => rfl
  | changed place | missing place =>
      show Json.writeAt ((some e).bind (Pointer.resolve? · (name :: place))) (name :: place) _ = _
      rw [hresolve]
      rfl

/-- What a repair comes to: the difference is gone, and no other one comes or goes. -/
structure Repaired (e a : Option Json) (d : Difference) (new : Option Json) : Prop where
  ordered : ∀ v ∈ new, v.Ordered
  isSome_eq : new.isSome = e.isSome
  mem_iff : ∀ d', d' ∈ between [] e new ↔ d' ∈ between [] e a ∧ d' ≠ d

/-- Where the values as a whole are one difference, the expected value is the repair. -/
theorem Repaired.whole {e a : Option Json} (he : ∀ v ∈ e, v.Ordered)
    (h : between [] e a = [d]) : Repaired e a d e where
  ordered := he
  isSome_eq := rfl
  mem_iff d' := by
    have hself : between [] e e = [] := by
      cases e with
      | none => rfl
      | some e => exact (differencesAt_eq_nil_iff []).mpr (Json.beq_refl e)
    simp [hself, h]

/-- What is repaired in a part is repaired in the value that the part is written to. -/
theorem Repaired.below {name : String} {new : Option Json} (h : Comparable e a) (he : e.Ordered)
    (ha : a.Ordered) (hi : e.Indexable)
    (hname : (e.part? name).isSome ∨ (a.part? name).isSome)
    (hpart : Repaired (e.part? name) (a.part? name) d new) :
    Repaired (some e) (some a) (d.below [name]) (some (a.write name new)) where
  ordered v hv := Option.some.inj hv ▸ ha.write hpart.ordered name
  isSome_eq := rfl
  mem_iff d' := by
    show d' ∈ differences e (a.write name new) ↔ d' ∈ differences e a ∧ _
    simp only [mem_differences_iff (h.write name new) he (ha.write hpart.ordered name),
      mem_differences_iff h he ha, h.part?_write ha hi hname hpart.isSome_eq]
    constructor
    · rintro ⟨t, d', hd', rfl⟩
      by_cases ht : name = t
      · subst ht
        rw [if_pos rfl, hpart.mem_iff] at hd'
        exact ⟨⟨name, d', hd'.1, rfl⟩, fun heq => hd'.2 (Difference.below_inj.mp heq).2⟩
      · rw [if_neg ht] at hd'
        exact ⟨⟨t, d', hd', rfl⟩, fun heq => ht (Difference.below_inj.mp heq).1.symm⟩
    · rintro ⟨⟨t, d', hd', rfl⟩, hne⟩
      refine ⟨t, d', ?_, rfl⟩
      by_cases ht : name = t
      · subst ht
        rw [if_pos rfl, hpart.mem_iff]
        exact ⟨hd', fun heq => hne (congrArg _ heq)⟩
      · rwa [if_neg ht]

/-- **A repair takes one difference away.** -/
theorem repaired (he : e.Ordered) (ha : a.Ordered) (hi : e.Indexable)
    (hd : d ∈ differences e a) : Repaired (some e) (some a) d (d.repair (some e) (some a)) := by
  induction e using Json.induction_parts generalizing a d with
  | parts e ih =>
      by_cases h : Comparable e a
      · obtain ⟨s, d', hd', rfl⟩ := (mem_differences_iff h he ha).mp hd
        have hname : (e.part? s).isSome ∨ (a.part? s).isSome := by
          by_contra hnone
          simp only [not_or, Option.not_isSome_iff_eq_none] at hnone
          simp [hnone, between] at hd'
        obtain ⟨hstep, hstep'⟩ := h.step?_eq_part? hi hname
        rw [Difference.repair_below, hstep, hstep']
        refine .below h he ha hi hname ?_
        cases hx : e.part? s <;> cases hy : a.part? s <;> rw [hx, hy] at hd'
        case none.none => simp [between] at hd'
        case some.some x y =>
          exact ih s x hx (he.of_part? hx) (ha.of_part? hy) (hi.of_part? hx) hd'
        case none.some y =>
          obtain rfl := List.mem_singleton.mp hd'
          exact .whole (by simp) rfl
        case some.none x =>
          obtain rfl := List.mem_singleton.mp hd'
          rw [Difference.repair_missing]
          exact .whole (fun v hv => Option.some.inj hv ▸ he.of_part? hx) rfl
      · obtain ⟨hne, rfl⟩ := (mem_differences_of_not_comparable h).mp hd
        have hwhole : between [] (some e) (some a) = [.changed []] := by
          show differencesAt [] e a = _
          rw [differencesAt_of_not_comparable h, hne]
          rfl
        rw [Difference.repair_changed]
        exact .whole (fun v hv => Option.some.inj hv ▸ he) hwhole

/-! ### All of them -/

/-- The actual value after repairs, one after the other. -/
def repairAll (e : Json) (ds : List Difference) (a : Json) : Option Json :=
  ds.foldl (fun a d => d.repair (some e) a) (some a)

/-- Repairs of all differences, in whatever order, leave none. -/
theorem exists_repairAll {ds : List Difference} (he : e.Ordered) (ha : a.Ordered)
    (hi : e.Indexable) (hnodup : ds.Nodup) (hall : ∀ d, d ∈ ds ↔ d ∈ differences e a) :
    ∃ a', repairAll e ds a = some a' ∧ (e == a') = true := by
  induction ds generalizing a with
  | nil =>
      refine ⟨a, rfl, (differencesAt_eq_nil_iff []).mp (List.eq_nil_iff_forall_not_mem.mpr ?_)⟩
      exact fun d hd => List.not_mem_nil ((hall d).mpr hd)
  | cons d ds ih =>
      obtain ⟨hd, hrest⟩ := List.nodup_cons.mp hnodup
      have hfirst := repaired he ha hi ((hall d).mp List.mem_cons_self)
      obtain ⟨a', ha'⟩ := Option.isSome_iff_exists.mp hfirst.isSome_eq
      rw [ha'] at hfirst
      obtain ⟨a'', hrun, heq⟩ := ih (hfirst.ordered a' rfl) hrest fun d' => by
        show _ ↔ d' ∈ between [] (some e) (some a')
        rw [hfirst.mem_iff]
        show _ ↔ d' ∈ differences e a ∧ _
        rw [← hall, List.mem_cons]
        constructor
        · exact fun hd' => ⟨Or.inr hd', fun heq => hd (heq ▸ hd')⟩
        · exact fun hd' => hd'.1.resolve_left hd'.2
      refine ⟨a'', ?_, heq⟩
      rw [repairAll, List.foldl_cons, ha']
      exact hrun

/-- **The differences of two values are sound and complete.** What each of them says is true, and
its text is its place as a pointer, which is read back, with a marker for its kind. No place is on
the way to another. Repaired in whatever order, they make the actual value equal to the expected
one. So there are none exactly if the values are equal. -/
theorem differences_sound_complete (he : e.Ordered) (ha : a.Ordered) (hi : e.Indexable) :
    (∀ d ∈ differences e a, d.Holds e a ∧ d.text = Pointer.format d.place ++ d.marker ∧
      Pointer.parse (Pointer.format d.place) = .ok d.place) ∧
    (differences e a).Pairwise (fun d d' => ¬ d.place <+: d'.place ∧ ¬ d'.place <+: d.place) ∧
    (∀ ds, ds.Perm (differences e a) →
      ∃ a', repairAll e ds a = some a' ∧ (e == a') = true) ∧
    (differences e a = [] ↔ (e == a) = true) := by
  have hapart := pairwise_apart he ha
  refine ⟨fun d hd => ?_, hapart, fun ds hperm => ?_, differencesAt_eq_nil_iff []⟩
  · exact ⟨holds_of_mem he ha hi hd, d.text_eq, Pointer.parse_format d.place⟩
  · have hnodup : (differences e a).Nodup := by
      refine hapart.imp ?_
      rintro d _ h rfl
      exact h.1 List.prefix_rfl
    exact exists_repairAll he ha hi (hperm.nodup_iff.mpr hnodup) fun d => hperm.mem_iff

/-- A key with a slash, lists of one length and of two, and a member on either side. -/
def wanted : Json :=
  .object
    [("a/b", .array [.number (.int 1), .object [("only", .null)]]),
      ("list", .array [.number (.int 1)]), ("name", .string "old")]

/-- The same in need of repair. -/
def found : Json :=
  .object
    [("a/b", .array [.number (.int 2), .object [("more", .null)]]),
      ("list", .array [.number (.int 1), .number (.int 2)]), ("title", .string "old")]

theorem differences_sound_complete_found :
    (differences wanted found).map Difference.text =
        ["/a~1b/0", "/a~1b/1/more (extra in actual)", "/a~1b/1/only (missing in actual)", "/list",
          "/name (missing in actual)", "/title (extra in actual)"] ∧
      ∃ a', repairAll wanted (differences wanted found).reverse found = some a' ∧
        (wanted == a') = true := by
  have hwanted : wanted.Ordered := by
    simp only [wanted, List.forall_mem_cons, List.not_mem_nil, false_implies, implies_true,
      Json.ordered_object, Json.ordered_array, Ordered.number, Ordered.string, Ordered.null]
    decide +kernel
  have hfound : found.Ordered := by
    simp only [found, List.forall_mem_cons, List.not_mem_nil, false_implies, implies_true,
      Json.ordered_object, Json.ordered_array, Ordered.number, Ordered.string, Ordered.null]
    decide +kernel
  have hindexable : wanted.Indexable := by
    simp [wanted, Json.Indexable.number, Json.Indexable.null, Json.Indexable.string]
  obtain ⟨-, -, hrepair, -⟩ := differences_sound_complete hwanted hfound hindexable
  exact ⟨by decide +kernel, hrepair _ (List.reverse_perm _)⟩

end Diff

end SchemaBundle
