/-
Following pointers.

A pointer is followed one segment at a time, so what a step does to equal values, and
to a value whose references were changed, carries over to whole pointers.  The one
place where a change of references shows is a pointer that ends in the reference
itself: there the text is found, and it is the new one.
-/
import SchemaBundle.Proofs.Json

namespace SchemaBundle

namespace Pointer

/-! ### Putting pointers together -/

@[simp] theorem resolve?_nil (v : Json) : resolve? v [] = some v := by
  cases v <;> rfl

theorem resolve?_cons (v : Json) (segment : String) (rest : Pointer) :
    resolve? v (segment :: rest) = (step? v segment).bind fun next => resolve? next rest := by
  cases v <;> rfl

theorem resolve?_append (v : Json) (p q : Pointer) :
    resolve? v (p ++ q) = (resolve? v p).bind fun next => resolve? next q := by
  induction p generalizing v with
  | nil => rw [List.nil_append, resolve?_nil, Option.bind_some]
  | cons segment rest ih =>
      rw [List.cons_append, resolve?_cons, resolve?_cons, Option.bind_assoc]
      congr 1
      funext next
      exact ih next

theorem resolve?_object (members : List (String × Json)) (segment : String) (rest : Pointer) :
    resolve? (.object members) (segment :: rest) =
      (Entries.get? members segment).bind fun next => resolve? next rest := rfl

@[simp] theorem resolve?_key (members : List (String × Json)) (key : String) :
    resolve? (.object members) [key] = Entries.get? members key := by
  simp [resolve?_object]

theorem ordered_of_resolve? {v u : Json} {p : Pointer} (hv : v.Ordered)
    (h : resolve? v p = some u) : u.Ordered := by
  induction p generalizing v with
  | nil =>
      rw [resolve?_nil, Option.some.injEq] at h
      exact h ▸ hv
  | cons segment rest ih =>
      rw [resolve?_cons] at h
      obtain ⟨next, hstep, hrest⟩ := Option.bind_eq_some_iff.mp h
      refine ih ?_ hrest
      cases hv with
      | object hsorted hmembers => exact hmembers _ (Entries.mem_of_get? hstep)
      | array hitems =>
          obtain ⟨index, -, hitem⟩ := Option.bind_eq_some_iff.mp hstep
          exact hitems next (List.mem_of_getElem? hitem)
      | null | bool _ | number _ | string _ => simp [step?] at hstep

/-- The reference member of an array cannot be asked for. -/
theorem arrayIndex?_ref : arrayIndex? "$ref" = none := by decide

/-! ### Equal values -/

private theorem getElem?_rel_of_forall₂ {xs ys : List Json}
    (h : List.Forall₂ (fun x y => (x == y) = true) xs ys) (i : Nat) :
    Option.Rel (fun v w => (v == w) = true) xs[i]? ys[i]? := by
  induction h generalizing i with
  | nil => exact Option.Rel.none
  | cons hxy _ ih =>
      cases i with
      | zero => exact Option.Rel.some hxy
      | succ i => simpa using ih i

theorem step?_beq {v w : Json} (h : (v == w) = true) (segment : String) :
    Option.Rel (fun v w => (v == w) = true) (step? v segment) (step? w segment) := by
  cases v with
  | array xs =>
      obtain ⟨ys, rfl, hall⟩ := Json.eq_array_of_beq h
      unfold step?
      cases arrayIndex? segment with
      | none => exact Option.Rel.none
      | some i => exact getElem?_rel_of_forall₂ hall i
  | object xs =>
      obtain ⟨ys, rfl, hall⟩ := Json.eq_object_of_beq h
      exact Entries.get?_rel_of_forall₂ hall segment
  | _ => cases w <;> first | exact Option.Rel.none | exact absurd h Bool.false_ne_true

/-- A pointer finds equal values in equal values. -/
theorem resolve?_beq {v w : Json} (h : (v == w) = true) (p : Pointer) :
    Option.Rel (fun v w => (v == w) = true) (resolve? v p) (resolve? w p) := by
  induction p generalizing v w with
  | nil =>
      rw [resolve?_nil, resolve?_nil]
      exact Option.Rel.some h
  | cons segment rest ih =>
      rw [resolve?_cons, resolve?_cons]
      have hstep := step?_beq h segment
      generalize step? v segment = sv at hstep
      generalize step? w segment = sw at hstep
      cases hstep with
      | none => exact Option.Rel.none
      | some hnext => exact ih hnext

/-! ### Changed references -/

theorem get?_mapRefs (f : String → String) (members : List (String × Json)) (key : String) :
    Entries.get? (members.map fun entry => (entry.1, Json.mapRefsAt f entry.1 entry.2)) key =
      (Entries.get? members key).map (Json.mapRefsAt f key) := by
  induction members with
  | nil => rfl
  | cons entry rest ih =>
      obtain ⟨k, v⟩ := entry
      rw [List.map_cons, Entries.get?_cons, Entries.get?_cons, ih]
      split
      · rename_i hk
        rw [Option.map_some, hk]
      · rfl

theorem mapRefsAt_of_ne {key : String} (h : key ≠ "$ref") (f : String → String) (v : Json) :
    Json.mapRefsAt f key v = v.mapRefs f := by
  unfold Json.mapRefsAt refText?
  rw [if_neg h]

theorem step?_mapRefs (f : String → String) (v : Json) (segment : String) :
    step? (v.mapRefs f) segment = (step? v segment).map (Json.mapRefsAt f segment) := by
  cases v with
  | array items =>
      rw [Json.mapRefs_array]
      show ((arrayIndex? segment).bind fun i => (items.map (Json.mapRefs f))[i]?) =
        ((arrayIndex? segment).bind fun i => items[i]?).map (Json.mapRefsAt f segment)
      cases hi : arrayIndex? segment with
      | none => rfl
      | some i =>
          have hne : segment ≠ "$ref" := by
            rintro rfl
            rw [arrayIndex?_ref] at hi
            simp at hi
          simp only [Option.bind_some, List.getElem?_map]
          congr 1
          funext item
          exact (mapRefsAt_of_ne hne f item).symm
  | object members =>
      rw [Json.mapRefs_object]
      exact get?_mapRefs f members segment
  | _ => rfl

/-- What a pointer finds once references have been changed. -/
def mapRefsEnd (f : String → String) (p : Pointer) (v : Json) : Json :=
  match p.getLast? with
  | some key => Json.mapRefsAt f key v
  | none => v.mapRefs f

theorem mapRefsEnd_eq {p : Pointer} {v : Json} (f : String → String)
    (h : p.getLast? ≠ some "$ref" ∨ v.string? = none) : mapRefsEnd f p v = v.mapRefs f := by
  unfold mapRefsEnd
  split
  · rename_i key hkey
    unfold Json.mapRefsAt refText?
    rcases h with h | h
    · rw [if_neg fun hc : key = "$ref" => h (hc ▸ hkey)]
    · split
      · rename_i raw hraw
        split at hraw
        · rw [h] at hraw
          simp at hraw
        · simp at hraw
      · rfl
  · rfl

/-- What a reference member becomes. -/
theorem mapRefsEnd_ref (f : String → String) (p : Pointer) (raw : String) :
    mapRefsEnd f (p ++ ["$ref"]) (.string raw) = .string (f raw) := by
  unfold mapRefsEnd
  rw [List.getLast?_concat]
  rfl

/-- Changing references makes no objects. -/
theorem eq_object_of_mapRefsEnd {f : String → String} {p : Pointer} {v : Json}
    {members : List (String × Json)} (h : mapRefsEnd f p v = .object members) :
    ∃ old, v = .object old := by
  cases v with
  | object old => exact ⟨old, rfl⟩
  | array items => rw [mapRefsEnd_eq f (Or.inr rfl), Json.mapRefs_array] at h; simp at h
  | string raw =>
      unfold mapRefsEnd Json.mapRefsAt at h
      split at h
      · split at h <;> simp [Json.mapRefs] at h
      · simp [Json.mapRefs] at h
  | null | bool _ | number _ =>
      rw [mapRefsEnd_eq f (Or.inr rfl)] at h
      simp [Json.mapRefs] at h

theorem isObject_mapRefsEnd (f : String → String) (p : Pointer) (v : Json) :
    (mapRefsEnd f p v).isObject = v.isObject := by
  cases hobject : v.isObject with
  | true =>
      cases v with
      | object old => rw [mapRefsEnd_eq f (Or.inr rfl), Json.mapRefs_object]; rfl
      | null | bool _ | number _ | string _ | array _ => simp [Json.isObject] at hobject
  | false =>
      by_contra hne
      cases hafter : mapRefsEnd f p v with
      | object new =>
          obtain ⟨old, rfl⟩ := eq_object_of_mapRefsEnd hafter
          simp [Json.isObject] at hobject
      | null | bool _ | number _ | string _ | array _ => simp [hafter, Json.isObject] at hne

/-- Two changes are one at every place. -/
theorem mapRefsEnd_mapRefsEnd (f g : String → String) (p : Pointer) (v : Json) :
    mapRefsEnd g p (mapRefsEnd f p v) = mapRefsEnd (g ∘ f) p v := by
  unfold mapRefsEnd
  cases p.getLast? with
  | none => exact Json.mapRefs_mapRefs f g v
  | some key => exact Json.mapRefsAt_mapRefsAt f g key v

private theorem resolve?_mapRefsAt (f : String → String) (key : String) (v : Json) (p : Pointer)
    (hp : p ≠ []) : resolve? (Json.mapRefsAt f key v) p = resolve? (v.mapRefs f) p := by
  obtain ⟨segment, rest, rfl⟩ := List.exists_cons_of_ne_nil hp
  unfold Json.mapRefsAt
  split
  · rename_i raw hraw
    obtain ⟨-, rfl⟩ := Json.refText?_eq_some hraw
    rfl
  · rfl

/-- **A pointer leads somewhere after references were changed exactly when it did
before**, and to the changed value. -/
theorem resolve?_mapRefs (f : String → String) (v : Json) (p : Pointer) :
    resolve? (v.mapRefs f) p = (resolve? v p).map (mapRefsEnd f p) := by
  induction p generalizing v with
  | nil => rw [resolve?_nil, resolve?_nil]; rfl
  | cons segment rest ih =>
      rw [resolve?_cons, resolve?_cons, step?_mapRefs]
      cases step? v segment with
      | none => rfl
      | some next =>
          simp only [Option.map_some, Option.bind_some]
          cases rest with
          | nil => rw [resolve?_nil, resolve?_nil]; rfl
          | cons second rest =>
              rw [resolve?_mapRefsAt f segment next _ (List.cons_ne_nil _ _), ih]
              rfl

/-- Every reference that a pointer leads to is among those of the value. -/
theorem mem_refs_of_resolve? {v : Json} {p : Pointer} {raw : String}
    (h : resolve? v (p ++ ["$ref"]) = some (.string raw)) : raw ∈ v.refs := by
  induction p generalizing v with
  | nil =>
      cases v with
      | object members =>
          rw [List.nil_append, resolve?_object] at h
          obtain ⟨w, hget, hw⟩ := Option.bind_eq_some_iff.mp h
          rw [resolve?_nil, Option.some.injEq] at hw
          subst hw
          rw [Json.refs_object, List.mem_flatMap]
          exact ⟨_, Entries.mem_of_get? hget, List.mem_singleton.mpr rfl⟩
      | array items => simp [resolve?, step?, arrayIndex?_ref] at h
      | null | bool _ | number _ | string _ => simp [resolve?, step?] at h
  | cons segment rest ih =>
      rw [List.cons_append, resolve?_cons] at h
      obtain ⟨next, hstep, hrest⟩ := Option.bind_eq_some_iff.mp h
      have hnext : raw ∈ next.refs := ih hrest
      cases v with
      | object members =>
          rw [Json.refs_object, List.mem_flatMap]
          refine ⟨_, Entries.mem_of_get? hstep, ?_⟩
          unfold Json.refsAt
          cases htext : refText? segment next with
          | none => exact hnext
          | some text =>
              -- a text has no references of its own
              rw [(Json.refText?_eq_some htext).2] at hnext
              simp [Json.refs] at hnext
      | array items =>
          rw [Json.refs_array, List.mem_flatMap]
          obtain ⟨index, -, hitem⟩ := Option.bind_eq_some_iff.mp hstep
          exact ⟨next, List.mem_of_getElem? hitem, hnext⟩
      | null | bool _ | number _ | string _ => simp [step?] at hstep

end Pointer

end SchemaBundle
