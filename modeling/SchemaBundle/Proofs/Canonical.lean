/-
Canonical text is a complete invariant.

Two values are the same tree if they differ in nothing but the order of members, at whatever
depth.  Sorting leaves a tree the same tree, and of the values that are the same tree it gives
those that have the same text.  The other half is that the layout says everything about the
value it is made from, so that equal texts come from the same tree.

Numbers are compared as they are printed, within their kind.  That is all that a text can
tell: it tells a whole number from a double and one zero from the other.

Golden files compare texts, so a golden file of one document matches another document in just
that case.
-/
import SchemaBundle.Proofs.Documents
import SchemaBundle.Proofs.Files
import SchemaBundle.Proofs.Layout

namespace SchemaBundle

namespace Json

/-! ### Trees -/

/-- In no object of the value a key stands twice. -/
inductive Distinct : Json → Prop
  | null : Distinct .null
  | bool (b : Bool) : Distinct (.bool b)
  | number (n : Number) : Distinct (.number n)
  | string (s : String) : Distinct (.string s)
  | array {items : List Json} (h : ∀ item ∈ items, Distinct item) : Distinct (.array items)
  | object {members : List (String × Json)} (nodup : (Entries.keys members).Nodup)
      (h : ∀ entry ∈ members, Distinct entry.2) : Distinct (.object members)

@[simp] theorem distinct_array {items : List Json} :
    Distinct (.array items) ↔ ∀ item ∈ items, Distinct item :=
  ⟨fun h => by cases h with | array h => exact h, .array⟩

@[simp] theorem distinct_object {members : List (String × Json)} :
    Distinct (.object members) ↔
      (Entries.keys members).Nodup ∧ ∀ entry ∈ members, Distinct entry.2 :=
  ⟨fun h => by cases h with | object nodup h => exact ⟨nodup, h⟩, fun h => .object h.1 h.2⟩

/-- The same tree up to the order of members: an array has the same items one after the other,
an object has the same keys and the same under each of them. -/
inductive SameTree : Json → Json → Prop
  | null : SameTree .null .null
  | bool (b : Bool) : SameTree (.bool b) (.bool b)
  | number {n m : Number} (h : n.Alike m) : SameTree (.number n) (.number m)
  | string (s : String) : SameTree (.string s) (.string s)
  | array {xs ys : List Json} (length : xs.length = ys.length)
      (h : ∀ (i : Nat) (x y : Json), xs[i]? = some x → ys[i]? = some y → SameTree x y) :
      SameTree (.array xs) (.array ys)
  | object {xs ys : List (String × Json)}
      (keys : ∀ key, key ∈ Entries.keys xs ↔ key ∈ Entries.keys ys)
      (h : ∀ key x y, Entries.get? xs key = some x → Entries.get? ys key = some y →
        SameTree x y) : SameTree (.object xs) (.object ys)

namespace SameTree

variable {u v w : Json} {xs ys : List Json}

theorem refl (v : Json) : SameTree v v := by
  induction v with
  | null => exact .null
  | bool b => exact .bool b
  | number n => exact .number (.refl n)
  | string s => exact .string s
  | array items ih =>
      refine .array rfl fun i x y hx hy => ?_
      obtain rfl := Option.some.inj (hx.symm.trans hy)
      exact ih x (List.mem_of_getElem? hx)
  | object members ih =>
      refine .object (fun _ => Iff.rfl) fun key x y hx hy => ?_
      obtain rfl := Option.some.inj (hx.symm.trans hy)
      exact ih (key, x) (Entries.mem_of_get? hx)

theorem symm (h : SameTree v w) : SameTree w v := by
  induction h with
  | null => exact .null
  | bool b => exact .bool b
  | number h => exact .number h.symm
  | string s => exact .string s
  | array length h ih => exact .array length.symm fun i y x hy hx => ih i x y hx hy
  | object keys h ih =>
      exact .object (fun key => (keys key).symm) fun key y x hy hx => ih key x y hx hy

theorem trans (h : SameTree u v) (h' : SameTree v w) : SameTree u w := by
  induction h generalizing w with
  | null => exact h'
  | bool b => exact h'
  | number h =>
      cases h' with
      | number h' => exact .number (h.trans h')
  | string s => exact h'
  | array length h ih =>
      rename_i xs ys
      cases h' with
      | array length' h' =>
          rename_i zs
          refine .array (length.trans length') fun i x z hx hz => ?_
          have hi : i < ys.length := length ▸ (List.getElem?_eq_some_iff.mp hx).1
          exact ih i x ys[i] hx (List.getElem?_eq_getElem hi)
            (h' i ys[i] z (List.getElem?_eq_getElem hi) hz)
  | object keys h ih =>
      rename_i xs ys
      cases h' with
      | object keys' h' =>
          rename_i zs
          refine .object (fun key => (keys key).trans (keys' key)) fun key x z hx hz => ?_
          have hkey : key ∈ Entries.keys ys := (keys key).mp (Entries.mem_keys_of_get? hx)
          obtain ⟨y, hy⟩ := Option.isSome_iff_exists.mp (Entries.isSome_get?_iff.mpr hkey)
          exact ih key x y hx hy (h' key y z hy hz)

theorem array_iff_forall₂ :
    SameTree (.array xs) (.array ys) ↔ List.Forall₂ SameTree xs ys := by
  rw [List.forall₂_iff_get]
  constructor
  · intro h
    cases h with
    | array length h =>
        exact ⟨length, fun i hx hy =>
          h i _ _ (List.getElem?_eq_getElem hx) (List.getElem?_eq_getElem hy)⟩
  · rintro ⟨length, h⟩
    refine .array length fun i x y hx hy => ?_
    obtain ⟨hi, rfl⟩ := List.getElem?_eq_some_iff.mp hx
    obtain ⟨hj, rfl⟩ := List.getElem?_eq_some_iff.mp hy
    exact h i hi hj

theorem of_forall₂ {xs ys : List (String × Json)}
    (h : List.Forall₂ (fun x y => x.1 = y.1 ∧ SameTree x.2 y.2) xs ys) :
    SameTree (.object xs) (.object ys) := by
  refine .object (fun key => ?_) fun key x y hx hy => ?_
  all_goals have hrel := Entries.get?_rel_of_forall₂ h key
  · rw [← Entries.isSome_get?_iff, ← Entries.isSome_get?_iff]
    generalize Entries.get? xs key = v at hrel ⊢
    generalize Entries.get? ys key = w at hrel ⊢
    cases hrel <;> simp
  · rw [hx, hy] at hrel
    cases hrel with
    | some hxy => exact hxy

end SameTree

variable {v w : Json} {s t : List Char}

/-! ### Sorting -/

/-- Every key that stands once is found where it was, with its value sorted. -/
theorem get?_sorted {members : List (String × Json)} (hnodup : (Entries.keys members).Nodup)
    (key : String) : Entries.get? (Entries.ofPairs (sortMembers members)) key =
      (Entries.get? members key).map sortKeys := by
  rw [sortMembers_eq, Entries.ofPairs, Entries.get?_insertAll (by rwa [Entries.keys_mapValues]),
    Entries.get?_mapValues, Entries.get?_nil, Option.or_none]

/-- **Sorting changes nothing but the order of members.** -/
theorem Distinct.sameTree_sortKeys (h : v.Distinct) : SameTree v v.sortKeys := by
  induction h with
  | null => exact .null
  | bool b => exact .bool b
  | number n => exact .number (.refl n)
  | string s => exact .string s
  | array h ih =>
      rw [sortKeys, sortItems_eq]
      refine .array (List.length_map _).symm fun i x y hx hy => ?_
      rw [List.getElem?_map, hx, Option.map_some, Option.some.injEq] at hy
      exact hy ▸ ih x (List.mem_of_getElem? hx)
  | object nodup h ih =>
      rw [sortKeys]
      refine .object (fun key => ?_) fun key x y hx hy => ?_
      · rw [← Entries.isSome_get?_iff, ← Entries.isSome_get?_iff, get?_sorted nodup,
          Option.isSome_map]
      · rw [get?_sorted nodup, hx, Option.map_some, Option.some.injEq] at hy
        exact hy ▸ ih (key, x) (Entries.mem_of_get? hx)

/-- **Where members are in order, the same tree has the same text.** -/
theorem SameTree.prettyChars_eq (h : SameTree v w) (hv : v.Ordered) (hw : w.Ordered)
    (level : Nat) : prettyChars level v = prettyChars level w := by
  induction h generalizing level with
  | null => rfl
  | bool b => rfl
  | number h => exact h.2
  | string s => rfl
  | array length h ih =>
      cases hv with
      | array hv =>
          cases hw with
          | array hw =>
              rw [prettyChars_array, prettyChars_array]
              refine container_congr (List.forall₂_iff_get.mpr ⟨length, fun i hx hy => ?_⟩)
              exact ih i _ _ (List.getElem?_eq_getElem hx) (List.getElem?_eq_getElem hy)
                (hv _ (List.getElem_mem hx)) (hw _ (List.getElem_mem hy)) (level + 1)
  | object keys h ih =>
      rw [ordered_object] at hv hw
      have hvalues := Entries.forall₂_of_get? (hv.1.keys_eq hw.1 keys) hv.1.keys_nodup
        fun key x y hx hy => ih key x y hx hy (hv.2 _ (Entries.mem_of_get? hx))
          (hw.2 _ (Entries.mem_of_get? hy)) (level + 1)
      rw [prettyChars_object, prettyChars_object]
      refine container_congr (hvalues.imp fun x y hxy => ?_)
      unfold memberChars
      rw [hxy.1, hxy.2]

/-! ### The layout of a value -/

theorem memberChars_read {entry : String × Json} {level : Nat}
    (h : ReadsAs SameTree (prettyChars level) entry.2) :
    ReadsAs (fun x y => x.1 = y.1 ∧ SameTree x.2 y.2) (memberChars level) entry := by
  intro other s t hs ht heq
  unfold memberChars at heq
  rw [List.append_assoc, List.append_assoc] at heq
  obtain ⟨hkey, hrest⟩ := quoteChars_read heq
  simp only [List.cons_append, List.cons.injEq, true_and] at hrest
  obtain ⟨hvalue, hst⟩ := h other.2 s t hs ht hrest
  exact ⟨⟨hkey, hvalue⟩, hst⟩

/-- **The pretty layout is read in one way only.** -/
theorem prettyChars_read (v : Json) (level : Nat) : ReadsAs SameTree (prettyChars level) v := by
  induction v generalizing level with
  | null =>
      intro w s t hs ht h
      have hkind := kind_eq_of_prettyChars h
      cases w with
      | null => exact ⟨.null, List.append_cancel_left h⟩
      | _ => simp [kind] at hkind
  | bool a =>
      intro w s t hs ht h
      have hkind := kind_eq_of_prettyChars h
      cases w with
      | bool b =>
          obtain rfl : a = b := by
            cases a <;> cases b <;> simp [prettyChars, scalarChars] at h ⊢
          exact ⟨.bool a, List.append_cancel_left h⟩
      | _ => simp [kind] at hkind
  | number n =>
      intro w s t hs ht h
      have hkind := kind_eq_of_prettyChars h
      cases w with
      | number m =>
          obtain ⟨halike, hst⟩ := numberChars_read hs ht h
          exact ⟨.number halike, hst⟩
      | _ => simp [kind] at hkind
  | string a =>
      intro w s t hs ht h
      have hkind := kind_eq_of_prettyChars h
      cases w with
      | string b =>
          obtain ⟨rfl, hst⟩ := quoteChars_read h
          exact ⟨.string a, hst⟩
      | _ => simp [kind] at hkind
  | array xs ih =>
      intro w s t hs ht h
      have hkind := kind_eq_of_prettyChars h
      cases w with
      | array ys =>
          rw [prettyChars_array, prettyChars_array] at h
          obtain ⟨hitems, hst⟩ := container_read (fun x hx => ih x hx (level + 1)) (by decide) h
          exact ⟨SameTree.array_iff_forall₂.mpr hitems, hst⟩
      | _ => simp [kind] at hkind
  | object xs ih =>
      intro w s t hs ht h
      have hkind := kind_eq_of_prettyChars h
      cases w with
      | object ys =>
          rw [prettyChars_object, prettyChars_object] at h
          obtain ⟨hmembers, hst⟩ := container_read
            (fun x hx => memberChars_read (ih x hx (level + 1))) (by decide) h
          exact ⟨.of_forall₂ hmembers, hst⟩
      | _ => simp [kind] at hkind

/-! ### Canonical text -/

/-- Values have the same canonical text exactly if they are the same tree. -/
theorem canonical_eq_iff (hv : v.Distinct) (hw : w.Distinct) :
    v.canonical = w.canonical ↔ SameTree v w := by
  have hsorted : v.canonical = w.canonical ↔
      prettyChars 0 v.sortKeys = prettyChars 0 w.sortKeys := by
    unfold canonical
    rw [String.ofList_inj, List.append_left_inj]
  rw [hsorted]
  constructor
  · intro h
    have hread := prettyChars_read v.sortKeys 0 w.sortKeys [] [] .nil .nil
      (by rw [List.append_nil, List.append_nil, h])
    exact (hv.sameTree_sortKeys.trans hread.1).trans hw.sameTree_sortKeys.symm
  · intro h
    exact ((hv.sameTree_sortKeys.symm.trans h).trans hw.sameTree_sortKeys).prettyChars_eq
      (ordered_sortKeys v) (ordered_sortKeys w) 0

/-- **Canonical text is a complete invariant.** Two values without repeated keys have the same
text exactly if they are the same tree. So once a golden file was verified with the one, and
was written if need be, it matches the other in just that case. Of numbers, a whole number is
the same as no double, and two zeros with different signs are not the same. -/
theorem canonical_complete (hv : v.Distinct) (hw : w.Distinct) :
    (v.canonical = w.canonical ↔ SameTree v w) ∧
    (∀ mode fs path verdict fs', Golden.verify mode fs path v = .ok (verdict, fs') →
      ∀ mode', (Golden.verify mode' fs' path w).map Prod.fst = .ok .matched ↔ SameTree v w) ∧
    (∀ a b : Int, SameTree (.number (.int a)) (.number (.int b)) ↔ a = b) ∧
    (∀ (a : Int) (x : Double), ¬ SameTree (.number (.int a)) (.number (.double x))) ∧
    ∀ x y : Double, SameTree (.number (.double x)) (.number (.double y)) →
      x.negative = y.negative := by
  have hcanonical := canonical_eq_iff hv hw
  refine ⟨hcanonical, ?_, fun a b => ?_, fun a x h => ?_, fun x y h => ?_⟩
  · intro mode fs path verdict fs' h mode'
    rw [← hcanonical]
    exact Golden.verifyText_matched_iff (Golden.load_verifyText h)
  · rw [← Number.alike_int_iff]
    exact ⟨fun h => by cases h with | number h => exact h, .number⟩
  · cases h with
    | number h => exact Number.not_alike_kinds a x h
  · cases h with
    | number h => exact h.negative_eq

/-- Members out of order at two depths, an empty container, and a string that looks like the
text around it. -/
def tangled : Json :=
  .object
    [("b", .array []),
      ("a", .array [.object [("y", .string "\"\x7d,\n\x7b\""), ("x", .number (.int 1))]])]

/-- The same in order. -/
def tidy : Json :=
  .object
    [("a", .array [.object [("x", .number (.int 1)), ("y", .string "\"\x7d,\n\x7b\"")]]),
      ("b", .array [])]

theorem canonical_complete_tidy :
    SameTree tangled tidy ∧
      ∃ fs', Golden.verify ⟨true, .standard⟩ ⟨.directory [], []⟩ "tidy.json" tangled =
          .ok (.created, fs') ∧
        (Golden.verify .standard fs' "tidy.json" tidy).map Prod.fst = .ok .matched := by
  have htangled : tangled.Distinct := by
    simp [tangled, Distinct.string, Distinct.number]
  have htidy : tidy.Distinct := by
    simp [tidy, Distinct.string, Distinct.number]
  obtain ⟨htext, hgolden, -⟩ := canonical_complete htangled htidy
  have hsame : SameTree tangled tidy := htext.mp (by decide +kernel)
  have hcreated : (Golden.verifyText ⟨true, .standard⟩ ⟨.directory [], []⟩ "tidy.json"
      tangled.canonical).map Prod.fst = .ok .created := by decide +kernel
  obtain ⟨fs', hwritten⟩ := Golden.exists_of_verdict hcreated
  exact ⟨hsame, fs', hwritten, (hgolden _ _ _ _ _ hwritten .standard).mpr hsame⟩

end Json

end SchemaBundle
