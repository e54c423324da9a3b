/-
What moving definitions to the components does.

The definitions of a document are merged with the components it has, and everything else
stays where it is.  A merge never replaces a component by another schema, so whatever text
stood among the components before is still there; and a definition is found, as it was,
under its name in the new place.
-/
import SchemaBundle.Components
import SchemaBundle.Proofs.Documents
import SchemaBundle.Proofs.Pointer
import SchemaBundle.Proofs.Reference

namespace SchemaBundle

namespace Components

open Pointer
open Reference (documentPart)

variable {document out : Json} {p : Pointer} {text : String}

/-! ### References -/

theorem movePointer?_eq_some {q : Pointer} : movePointer? p = some q ↔
    ∃ name rest, p = Schema.definitionsKey :: name :: rest ∧ q = path ++ name :: rest := by
  unfold movePointer?
  split
  · rename_i first second rest
    by_cases hfirst : first = Schema.definitionsKey
    · simp [hfirst, eq_comm]
    · simp [hfirst]
  · rename_i hshort
    refine ⟨by simp, ?_⟩
    rintro ⟨name, rest, rfl, -⟩
    exact absurd rfl (hshort _ _ _)

/-- **A reference to a definition** leads to the component of that name, in the same
document. -/
theorem moveRef_of_definition {raw name : String} {reference : Reference} {rest : Pointer}
    (hparse : Reference.parse raw = .ok reference)
    (hpointer : reference.pointer = Schema.definitionsKey :: name :: rest) :
    moveRef raw = documentPart raw ++ "#" ++ Pointer.format (path ++ name :: rest) := by
  have hmove : movePointer? reference.pointer = some (path ++ name :: rest) :=
    movePointer?_eq_some.mpr ⟨name, rest, hpointer, rfl⟩
  obtain ⟨-, pointer, -, rfl⟩ := Reference.parse_eq_ok.mp hparse
  unfold moveRef
  rw [hparse]
  simp only [hmove]
  exact Reference.format_ofParts _ _

/-- Whatever else a text is, it stays. -/
theorem moveRef_of_other {raw : String}
    (h : ∀ reference, Reference.parse raw = .ok reference → movePointer? reference.pointer = none) :
    moveRef raw = raw := by
  unfold moveRef
  cases hparse : Reference.parse raw with
  | error reason => rfl
  | ok reference => simp only [h reference hparse]

theorem moveRef_internal (name : String) (rest : Pointer) :
    moveRef (Reference.internal (Schema.definitionsKey :: name :: rest)).format =
      (Reference.internal (path ++ name :: rest)).format := by
  have hempty : '#' ∉ "".toList := List.not_mem_nil
  have hparse := Reference.parse_join hempty (Schema.definitionsKey :: name :: rest)
  have hmove := moveRef_of_definition hparse rfl
  rw [(Reference.parts_join hempty _).1] at hmove
  exact hmove

/-- Where a place is after the move. -/
def place (p : Pointer) : Pointer :=
  (movePointer? p).getD p

/-! ### Merging -/

theorem objectAt_ok {members inner : List (String × Json)} {key name : String}
    (h : objectAt members key name = .ok inner) :
    (Entries.get? members key = none ∧ inner = []) ∨
      Entries.get? members key = some (.object inner) := by
  unfold objectAt at h
  split at h
  · rename_i hnone
    exact Or.inl ⟨hnone, (Except.ok.inj h).symm⟩
  · rename_i found hget
    exact Or.inr (Except.ok.inj h ▸ hget)
  · simp at h

/-- A place below a member is a place below the object that counts for it. -/
theorem resolve?_objectAt {members inner : List (String × Json)} {key name segment : String}
    {rest : Pointer} (h : objectAt members key name = .ok inner) :
    resolve? (.object members) (key :: segment :: rest) =
      resolve? (.object inner) (segment :: rest) := by
  rw [resolve?_object]
  rcases objectAt_ok h with ⟨hnone, rfl⟩ | hsome
  · rw [hnone]
    rfl
  · rw [hsome, Option.bind_some]

theorem not_string_of_objectAt {members inner : List (String × Json)} {key name : String}
    (h : objectAt members key name = .ok inner) (text : String) :
    resolve? (.object members) [key] ≠ some (.string text) := by
  rw [resolve?_object]
  rcases objectAt_ok h with ⟨hnone, -⟩ | hsome
  · simp [hnone]
  · simp [hsome]

/-- A merge goes on when the first definition is new, or equal to the component of its name. -/
theorem merge_cons_ok {components rest merged : List (String × Json)} {name : String}
    {schema : Json} (h : merge components ((name, schema) :: rest) = .ok merged) :
    merge (Entries.insert name schema components) rest = .ok merged ∧
      ∀ w, Entries.get? components name = some w → (w == schema) = true := by
  unfold merge at h
  split at h
  · rename_i existing hget
    split at h
    · rename_i hequal
      refine ⟨h, fun w hw => ?_⟩
      rw [hget, Option.some.injEq] at hw
      exact hw ▸ hequal
    · simp at h
  · rename_i hnone
    refine ⟨h, fun w hw => ?_⟩
    rw [hnone] at hw
    simp at hw

/-- After a merge the definitions are there, and of the components those that have no
definition of their name; where there are both, they are equal. -/
theorem merge_ok {components definitions merged : List (String × Json)}
    (h : merge components definitions = .ok merged) (hnodup : (Entries.keys definitions).Nodup) :
    (∀ key, Entries.get? merged key =
      (Entries.get? definitions key).or (Entries.get? components key)) ∧
    ∀ key v w, Entries.get? definitions key = some v → Entries.get? components key = some w →
      (w == v) = true := by
  induction definitions generalizing components with
  | nil =>
      obtain rfl : components = merged := Except.ok.inj h
      simp
  | cons first rest ih =>
      obtain ⟨name, schema⟩ := first
      rw [Entries.keys_cons, List.nodup_cons] at hnodup
      obtain ⟨hrest, hequal⟩ := merge_cons_ok h
      obtain ⟨hget, hsame⟩ := ih hrest hnodup.2
      have hlater : Entries.get? rest name = none := Entries.get?_eq_none_iff.mpr hnodup.1
      constructor
      · intro key
        rw [hget key, Entries.get?_insert, Entries.get?_cons]
        by_cases hkey : name = key
        · rw [if_pos hkey, if_pos hkey, ← hkey, hlater, Option.none_or, Option.some_or]
        · rw [if_neg hkey, if_neg hkey]
      · intro key v w hv hw
        rw [Entries.get?_cons] at hv
        by_cases hkey : name = key
        · rw [if_pos hkey, Option.some.injEq] at hv
          exact hv ▸ hequal w (hkey ▸ hw)
        · rw [if_neg hkey] at hv
          refine hsame key v w hv ?_
          rw [Entries.get?_insert_ne hkey, hw]

/-! ### Converting -/

/-- What a document is put together from. -/
theorem convert_ok (h : convert document = .ok out) :
    ∃ members definitions components schemas merged,
      moveRefs document = .object members ∧
      objectAt members Schema.definitionsKey "definitions" = .ok definitions ∧
      objectAt (Entries.erase members Schema.definitionsKey) "components" "components" =
        .ok components ∧
      objectAt components "schemas" "components/schemas" = .ok schemas ∧
      merge schemas definitions = .ok merged ∧
      out = .object (Entries.insert "components"
        (.object (Entries.insert "schemas" (.object merged) components))
        (Entries.erase members Schema.definitionsKey)) := by
  unfold convert at h
  split at h
  · rename_i members hmembers
    obtain ⟨definitions, hdefinitions, h⟩ := Error.bind_eq_ok.mp h
    obtain ⟨components, hcomponents, h⟩ := Error.bind_eq_ok.mp h
    obtain ⟨schemas, hschemas, h⟩ := Error.bind_eq_ok.mp h
    obtain ⟨merged, hmerged, h⟩ := Error.bind_eq_ok.mp h
    exact ⟨members, definitions, components, schemas, merged, hmembers, hdefinitions, hcomponents,
      hschemas, hmerged, (Except.ok.inj h).symm⟩
  · simp at h

/-- A document whose definitions are a map. -/
def DefinitionsNodup (document : Json) : Prop :=
  ∀ definitions, resolve? document [Schema.definitionsKey] = some (.object definitions) →
    (Entries.keys definitions).Nodup

theorem definitions_nodup {members definitions : List (String × Json)}
    (hnodup : DefinitionsNodup (.object members))
    (h : objectAt members Schema.definitionsKey "definitions" = .ok definitions) :
    (Entries.keys definitions).Nodup := by
  rcases objectAt_ok h with ⟨-, rfl⟩ | hget
  · exact List.nodup_nil
  · refine hnodup definitions ?_
    rw [resolve?_object, hget, Option.bind_some, resolve?_nil]

/-- What a place below the definitions holds, it holds among the components. -/
theorem resolve?_convert_definition {name : String} {rest : Pointer} {v : Json}
    (h : convert document = .ok out) (hnodup : DefinitionsNodup (moveRefs document))
    (hv : resolve? (moveRefs document) (Schema.definitionsKey :: name :: rest) = some v) :
    resolve? out (path ++ name :: rest) = some v := by
  obtain ⟨members, definitions, components, schemas, merged, hmembers, hdefinitions, -, -, hmerge,
    rfl⟩ := convert_ok h
  rw [hmembers, resolve?_objectAt hdefinitions, resolve?_object] at hv
  obtain ⟨next, hnext, hrest⟩ := Option.bind_eq_some_iff.mp hv
  have hkeys := definitions_nodup (hmembers ▸ hnodup) hdefinitions
  show resolve? _ ("components" :: "schemas" :: name :: rest) = some v
  rw [resolve?_object, Entries.get?_insert_self, Option.bind_some, resolve?_object,
    Entries.get?_insert_self, Option.bind_some, resolve?_object, (merge_ok hmerge hkeys).1, hnext,
    Option.some_or, Option.bind_some, hrest]

/-! ### Texts stay -/

/-- Every text of one value stands in the other, at the same place. -/
def KeepsTexts (v w : Json) : Prop :=
  ∀ p text, resolve? v p = some (.string text) → resolve? w p = some (.string text)

/-- A text among the components is not touched by what is merged into them. -/
theorem keepsTexts_merge {schemas definitions merged : List (String × Json)}
    (h : merge schemas definitions = .ok merged) (hnodup : (Entries.keys definitions).Nodup) :
    KeepsTexts (.object schemas) (.object merged) := by
  obtain ⟨hget, hsame⟩ := merge_ok h hnodup
  intro p text hp
  cases p with
  | nil => rw [resolve?_nil] at hp; simp at hp
  | cons name rest =>
      rw [resolve?_object] at hp ⊢
      obtain ⟨u, hu, hrest⟩ := Option.bind_eq_some_iff.mp hp
      rw [hget]
      cases hv : Entries.get? definitions name with
      | none => rw [Option.none_or, hu, Option.bind_some, hrest]
      | some v =>
          -- an equal value has the same text there
          have hrel := resolve?_beq (hsame name v u hv hu) rest
          rw [hrest] at hrel
          rw [Option.some_or, Option.bind_some]
          generalize resolve? v rest = found at hrel ⊢
          cases hrel with
          | some hequal => rw [Json.eq_string_of_beq hequal]

/-- Texts stay when the object under a key is replaced by one that keeps its texts. -/
theorem keepsTexts_insert {members inner new : List (String × Json)} {key name : String}
    (h : objectAt members key name = .ok inner) (hnew : KeepsTexts (.object inner) (.object new)) :
    KeepsTexts (.object members) (.object (Entries.insert key (.object new) members)) := by
  intro p text hp
  cases p with
  | nil => rw [resolve?_nil] at hp; simp at hp
  | cons first rest =>
      by_cases hfirst : first = key
      · subst hfirst
        cases rest with
        | nil => exact absurd hp (not_string_of_objectAt h text)
        | cons second rest =>
            rw [resolve?_objectAt h] at hp
            rw [resolve?_object, Entries.get?_insert_self, Option.bind_some]
            exact hnew _ _ hp
      · rw [resolve?_object, Entries.get?_insert_ne (Ne.symm hfirst), ← resolve?_object]
        exact hp

/-- Every text is where its place has moved. -/
theorem resolve?_convert_string (h : convert document = .ok out)
    (hnodup : DefinitionsNodup (moveRefs document))
    (hp : resolve? (moveRefs document) p = some (.string text)) :
    resolve? out (place p) = some (.string text) := by
  obtain ⟨members, definitions, components, schemas, merged, hmembers, hdefinitions, hcomponents,
    hschemas, hmerge, hout⟩ := convert_ok h
  cases p with
  | nil => rw [hmembers, resolve?_nil] at hp; simp at hp
  | cons first rest =>
      by_cases hfirst : first = Schema.definitionsKey
      · subst hfirst
        cases rest with
        | nil =>
            rw [hmembers] at hp
            exact absurd hp (not_string_of_objectAt hdefinitions text)
        | cons name rest =>
            have hplace : place (Schema.definitionsKey :: name :: rest) = path ++ name :: rest := by
              simp [place, movePointer?]
            rw [hplace]
            exact resolve?_convert_definition h hnodup hp
      · have hplace : place (first :: rest) = first :: rest := by
          cases rest with
          | nil => rfl
          | cons second rest => simp [place, movePointer?, hfirst]
        rw [hmembers] at hp hnodup
        have hkept : resolve? (.object (Entries.erase members Schema.definitionsKey))
            (first :: rest) = some (.string text) := by
          rw [resolve?_object] at hp ⊢
          rw [Entries.get?_erase_ne (Ne.symm hfirst), hp]
        have hmerged : KeepsTexts (.object schemas) (.object merged) :=
          keepsTexts_merge hmerge (definitions_nodup hnodup hdefinitions)
        rw [hplace, hout]
        exact keepsTexts_insert hcomponents (keepsTexts_insert hschemas hmerged) _ _ hkept

/-! ### Read in the document -/

/-- What stood at a place of the definitions stands among the components, with its references
changed. -/
theorem convert_definition {name : String} {rest : Pointer} {v : Json}
    (h : convert document = .ok out) (hnodup : DefinitionsNodup (moveRefs document))
    (hv : resolve? document (Schema.definitionsKey :: name :: rest) = some v) :
    resolve? out (path ++ name :: rest) =
      some (mapRefsEnd moveRef (Schema.definitionsKey :: name :: rest) v) := by
  refine resolve?_convert_definition h hnodup ?_
  rw [moveRefs, resolve?_mapRefs, hv, Option.map_some]

/-- A reference to a place of the definitions leads to that place of the components. -/
theorem convert_reference {name : String} {rest q : Pointer} (h : convert document = .ok out)
    (hnodup : DefinitionsNodup (moveRefs document))
    (hlink : resolve? document (q ++ ["$ref"]) =
      some (.string (Reference.internal (Schema.definitionsKey :: name :: rest)).format)) :
    resolve? out (place (q ++ ["$ref"])) =
      some (.string (Reference.internal (path ++ name :: rest)).format) := by
  refine resolve?_convert_string h hnodup ?_
  rw [moveRefs, resolve?_mapRefs, hlink, Option.map_some, mapRefsEnd_ref, moveRef_internal]

end Components

end SchemaBundle
