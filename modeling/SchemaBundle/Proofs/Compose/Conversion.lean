/-
Moving definitions keeps what references mean.

The conversion changes the texts of references before it moves what they lead to, so the two
have to agree: a place below the definitions is found, with its references changed, at the
place that the changed references name.  Every other place outside the components is what it
was, and where the components have a schema of the same name already, it is an equal one.

What comes out has no definitions and no reference to them, which is why converting it again
changes nothing.
-/
import SchemaBundle.Proofs.Compose.Components
import SchemaBundle.Proofs.Mount

namespace SchemaBundle

namespace Components

open Pointer
open Reference (documentPart)
open MountPath (nodeMembers nodeMembers_cons keys_nodeMembers_mapRefs)

variable {document out : Json} {p rest : Pointer} {raw key name : String} {error : Error}
  {members inner components definitions schemas merged : List (String × Json)}

/-! ### References that stay -/

/-- A text that the move does not concern: if it is a reference, then not to a place below the
definitions. -/
def Clear (raw : String) : Prop :=
  ∀ reference, Reference.parse raw = .ok reference → movePointer? reference.pointer = none

/-- A text stays, or it becomes a reference to a component, in the document that it names. -/
theorem moveRef_cases (raw : String) : (Clear raw ∧ moveRef raw = raw) ∨
    ∃ p, moveRef raw = documentPart raw ++ "#" ++ Pointer.format (path ++ p) := by
  by_cases hclear : Clear raw
  · exact Or.inl ⟨hclear, moveRef_of_other hclear⟩
  · unfold Clear at hclear
    push Not at hclear
    obtain ⟨reference, hparse, hmoves⟩ := hclear
    obtain ⟨q, hq⟩ := Option.ne_none_iff_exists'.mp hmoves
    obtain ⟨name, rest, hpointer, rfl⟩ := movePointer?_eq_some.mp hq
    exact Or.inr ⟨_, moveRef_of_definition hparse hpointer⟩

/-- **After the move no reference leads below the definitions.** -/
theorem clear_moveRef (raw : String) : Clear (moveRef raw) := by
  rcases moveRef_cases raw with ⟨hclear, heq⟩ | ⟨p, heq⟩
  · rw [heq]
    exact hclear
  · rw [heq]
    intro moved hmoved
    rw [Reference.parse_join (Reference.hash_not_mem_documentPart raw), Except.ok.injEq] at hmoved
    subst hmoved
    rfl

theorem moveRefs_of_clear {v : Json} (h : ∀ raw ∈ v.refs, Clear raw) : moveRefs v = v := by
  have hsame : moveRefs v = v.mapRefs id :=
    Json.mapRefs_congr v fun raw hraw => moveRef_of_other (h raw hraw)
  rw [hsame, Json.mapRefs_id]

/-! ### Where something counts as an object -/

theorem exists_objectAt_iff : (∃ inner, objectAt members key name = .ok inner) ↔
    ∀ u, Entries.get? members key = some u → u.isObject = true := by
  unfold objectAt
  cases Entries.get? members key with
  | none => simp
  | some u => cases u <;> simp [Json.isObject]

theorem getD_of_objectAt (h : objectAt members key name = .ok inner) :
    (Entries.get? members key).getD (.object []) = .object inner := by
  rcases objectAt_ok h with ⟨hnone, rfl⟩ | hsome
  · rw [hnone, Option.getD_none]
  · rw [hsome, Option.getD_some]

/-- The members of a node are read off the object that counts for it. -/
theorem nodeMembers_objectAt (h : objectAt members key name = .ok inner) (rest : Pointer) :
    nodeMembers (.object members) (key :: rest) = nodeMembers (.object inner) rest := by
  rw [nodeMembers_cons, getD_of_objectAt h]

theorem resolve?_member (members : List (String × Json)) (key : String) :
    resolve? (.object members) [key] = Entries.get? members key := by
  rw [resolve?_object]
  cases Entries.get? members key with
  | none => rfl
  | some u => rw [Option.bind_some, resolve?_nil]

theorem nodeMembers_nil (members : List (String × Json)) :
    nodeMembers (.object members) [] = members := rfl

theorem mem_refs_of_objectAt (h : objectAt members key name = .ok inner)
    (hraw : raw ∈ (Json.object inner).refs) : raw ∈ (Json.object members).refs := by
  rcases objectAt_ok h with ⟨-, rfl⟩ | hsome
  · simp at hraw
  · exact Json.mem_refs_of_get? hsome hraw

/-- A place below a node is a place below one of its members, if the node is an object. -/
theorem resolve?_below_node {v : Json} {q : Pointer}
    (hnode : ∀ u, resolve? v q = some u → u.isObject = true) (key : String) (rest : Pointer) :
    resolve? v (q ++ key :: rest) =
      (Entries.get? (nodeMembers v q) key).bind fun next => resolve? next rest := by
  rw [resolve?_append]
  unfold nodeMembers
  cases hu : resolve? v q with
  | none => rfl
  | some u =>
      have hobject := hnode u hu
      cases u with
      | object members => rfl
      | null | bool _ | number _ | string _ | array _ => simp [Json.isObject] at hobject

/-! ### When a merge fails -/

/-- **A merge fails at a name** that has a definition and another component. -/
theorem merge_error (h : merge components definitions = .error error)
    (hnodup : (Entries.keys definitions).Nodup) :
    ∃ name v w, error = .nameCollision name "components/schemas" ∧
      Entries.get? definitions name = some v ∧ Entries.get? components name = some w ∧
      (w == v) = false := by
  induction definitions generalizing components with
  | nil => simp [merge] at h
  | cons first rest ih =>
      obtain ⟨name, schema⟩ := first
      rw [Entries.keys_cons, List.nodup_cons] at hnodup
      have hcases : merge (Entries.insert name schema components) rest = .error error ∨
          (error = .nameCollision name "components/schemas" ∧
            ∃ w, Entries.get? components name = some w ∧ (w == schema) = false) := by
        unfold merge at h
        split at h
        · rename_i existing hget
          split at h
          · exact Or.inl h
          · rename_i hdiffers
            exact Or.inr ⟨(Except.error.inj h).symm, existing, hget, by simpa using hdiffers⟩
        · exact Or.inl h
      rcases hcases with hrest | ⟨rfl, w, hw, hdiffers⟩
      · obtain ⟨other, v, w, rfl, hv, hw, hdiffers⟩ := ih hrest hnodup.2
        have hne : name ≠ other := by
          rintro rfl
          exact hnodup.1 (Entries.mem_keys_of_get? hv)
        rw [Entries.get?_insert_ne hne] at hw
        refine ⟨other, v, w, rfl, ?_, hw, hdiffers⟩
        rw [Entries.get?_cons, if_neg hne, hv]
      · refine ⟨name, schema, w, rfl, ?_, hw, hdiffers⟩
        rw [Entries.get?_cons, if_pos rfl]

theorem mem_merge {entry : String × Json} (h : merge components definitions = .ok merged)
    (hentry : entry ∈ merged) : entry ∈ components ∨ entry ∈ definitions := by
  induction definitions generalizing components with
  | nil =>
      obtain rfl : components = merged := Except.ok.inj h
      exact Or.inl hentry
  | cons first rest ih =>
      obtain ⟨name, schema⟩ := first
      rcases ih (merge_cons_ok h).1 with hold | hnew
      · rcases Entries.mem_insert hold with rfl | hold
        · exact Or.inr List.mem_cons_self
        · exact Or.inl hold
      · exact Or.inr (List.mem_cons_of_mem _ hnew)

/-! ### What comes out -/

/-- What a document is put together from makes it. -/
theorem convert_of_parts (hmembers : moveRefs document = .object members)
    (hdefinitions : objectAt members Schema.definitionsKey "definitions" = .ok definitions)
    (hcomponents : objectAt (Entries.erase members Schema.definitionsKey) "components"
      "components" = .ok components)
    (hschemas : objectAt components "schemas" "components/schemas" = .ok schemas)
    (hmerge : merge schemas definitions = .ok merged) :
    convert document = .ok (.object (Entries.insert "components"
      (.object (Entries.insert "schemas" (.object merged) components))
      (Entries.erase members Schema.definitionsKey))) := by
  unfold convert
  rw [hmembers]
  simp only [hdefinitions, hcomponents, hschemas, hmerge, bind, Except.bind]
  rfl

/-- The definitions and the components of a document, with their references changed. -/
theorem nodeMembers_of_parts (hmembers : moveRefs document = .object members)
    (hdefinitions : objectAt members Schema.definitionsKey "definitions" = .ok definitions)
    (hcomponents : objectAt (Entries.erase members Schema.definitionsKey) "components"
      "components" = .ok components)
    (hschemas : objectAt components "schemas" "components/schemas" = .ok schemas) :
    nodeMembers (moveRefs document) [Schema.definitionsKey] = definitions ∧
      nodeMembers (moveRefs document) path = schemas := by
  have hne : Schema.definitionsKey ≠ "components" := by decide
  rw [hmembers]
  constructor
  · rw [nodeMembers_objectAt hdefinitions, nodeMembers_nil]
  · show nodeMembers _ ["components", "schemas"] = _
    rw [nodeMembers_cons, ← Entries.get?_erase_ne hne, ← nodeMembers_cons,
      nodeMembers_objectAt hcomponents, nodeMembers_objectAt hschemas, nodeMembers_nil]

theorem definitionsNodup_of_ordered (h : document.Ordered) :
    DefinitionsNodup (moveRefs document) := fun _ hnode =>
  (ordered_of_resolve? (h.mapRefs moveRef) hnode).sorted.keys_nodup

/-- The components of what comes out. -/
theorem resolve?_convert_path (h : convert document = .ok out)
    (hnodup : DefinitionsNodup (moveRefs document)) :
    ∃ merged, resolve? out path = some (.object merged) ∧
      (∀ key, Entries.get? merged key =
        (Entries.get? (nodeMembers (moveRefs document) [Schema.definitionsKey]) key).or
          (Entries.get? (nodeMembers (moveRefs document) path) key)) ∧
      ∀ key v w,
        Entries.get? (nodeMembers (moveRefs document) [Schema.definitionsKey]) key = some v →
        Entries.get? (nodeMembers (moveRefs document) path) key = some w → (w == v) = true := by
  obtain ⟨members, definitions, components, schemas, merged, hmembers, hdefinitions, hcomponents,
    hschemas, hmerge, rfl⟩ := convert_ok h
  obtain ⟨hleft, hright⟩ := nodeMembers_of_parts hmembers hdefinitions hcomponents hschemas
  rw [hleft, hright]
  refine ⟨merged, ?_, merge_ok hmerge (definitions_nodup (hmembers ▸ hnodup) hdefinitions)⟩
  show resolve? _ ["components", "schemas"] = _
  rw [resolve?_object, Entries.get?_insert_self, Option.bind_some, resolve?_object,
    Entries.get?_insert_self, Option.bind_some, resolve?_nil]

theorem objectAt_error (h : objectAt members key name = .error error) :
    error = .invalidDocument (.memberNotObject name) := by
  unfold objectAt at h
  split at h
  · simp at h
  · simp at h
  · exact (Except.error.inj h).symm

/-- **The conversion fails at a name** only where a definition and a component have it. -/
theorem convert_collision {place : String}
    (h : convert document = .error (.nameCollision name place))
    (hnodup : DefinitionsNodup (moveRefs document)) :
    ∃ v w, Entries.get? (nodeMembers (moveRefs document) [Schema.definitionsKey]) name = some v ∧
      Entries.get? (nodeMembers (moveRefs document) path) name = some w ∧ (w == v) = false := by
  unfold convert at h
  split at h
  · rename_i members hmembers
    rcases Error.bind_eq_error.mp h with hfails | ⟨definitions, hdefinitions, h⟩
    · simpa using objectAt_error hfails
    · rcases Error.bind_eq_error.mp h with hfails | ⟨components, hcomponents, h⟩
      · simpa using objectAt_error hfails
      · rcases Error.bind_eq_error.mp h with hfails | ⟨schemas, hschemas, h⟩
        · simpa using objectAt_error hfails
        · rcases Error.bind_eq_error.mp h with hfails | ⟨merged, -, h⟩
          · obtain ⟨hleft, hright⟩ :=
              nodeMembers_of_parts hmembers hdefinitions hcomponents hschemas
            obtain ⟨other, v, w, herror, hv, hw, hdiffers⟩ :=
              merge_error hfails (definitions_nodup (hmembers ▸ hnodup) hdefinitions)
            obtain ⟨rfl, -⟩ := Error.nameCollision.inj herror
            rw [hleft, hright]
            exact ⟨v, w, hv, hw, hdiffers⟩
          · simp [pure, Except.pure] at h
  · simp at h

theorem prefix_path_cases (hp : p <+: path) : p = [] ∨ p = ["components"] ∨ p = path := by
  replace hp : p <+: "components" :: "schemas" :: [] := hp
  rcases List.prefix_cons_iff.mp hp with rfl | ⟨t, rfl, ht⟩
  · exact Or.inl rfl
  · rcases List.prefix_cons_iff.mp ht with rfl | ⟨s, rfl, hs⟩
    · exact Or.inr (Or.inl rfl)
    · rw [List.prefix_nil.mp hs]
      exact Or.inr (Or.inr rfl)

/-- On the way to the components there are objects. -/
theorem resolve?_convert_above (h : convert document = .ok out) (hp : p <+: path) :
    ∃ members, resolve? out p = some (.object members) := by
  obtain ⟨members, definitions, components, schemas, merged, -, -, -, -, -, rfl⟩ := convert_ok h
  rcases prefix_path_cases hp with rfl | rfl | rfl
  · exact ⟨_, resolve?_nil _⟩
  · exact ⟨_, by rw [resolve?_member, Entries.get?_insert_self]⟩
  · refine ⟨merged, ?_⟩
    show resolve? _ ["components", "schemas"] = _
    rw [resolve?_object, Entries.get?_insert_self, Option.bind_some, resolve?_member,
      Entries.get?_insert_self]

/-- **A place outside the definitions and the components stays as it is.** -/
theorem resolve?_convert_outside (h : convert document = .ok out)
    (hp : p.head? ≠ some Schema.definitionsKey) (habove : ¬ p <+: path) (hbelow : ¬ path <+: p) :
    resolve? out p = resolve? (moveRefs document) p := by
  obtain ⟨members, definitions, components, schemas, merged, hmembers, -, hcomponents, hschemas,
    -, rfl⟩ := convert_ok h
  rw [hmembers]
  cases p with
  | nil => exact absurd List.nil_prefix habove
  | cons first rest =>
      have hfirst : Schema.definitionsKey ≠ first := fun heq => hp (by rw [heq]; rfl)
      have herase : resolve? (.object (Entries.erase members Schema.definitionsKey))
          (first :: rest) = resolve? (.object members) (first :: rest) := by
        rw [resolve?_object, resolve?_object, Entries.get?_erase_ne hfirst]
      by_cases hcomp : "components" = first
      · subst hcomp
        cases rest with
        | nil => exact absurd (by decide) habove
        | cons second rest =>
            have hsecond : "schemas" ≠ second := by
              rintro rfl
              exact hbelow ⟨rest, rfl⟩
            rw [← herase, resolve?_objectAt hcomponents, resolve?_object,
              Entries.get?_insert_self, Option.bind_some, resolve?_object, resolve?_object,
              Entries.get?_insert_ne hsecond]
      · rw [← herase, resolve?_object, resolve?_object, Entries.get?_insert_ne hcomp]

/-- Every reference of what comes out is one of the document after the move. -/
theorem refs_of_convert (h : convert document = .ok out) (hraw : raw ∈ out.refs) :
    ∃ old ∈ document.refs, raw = moveRef old := by
  obtain ⟨members, definitions, components, schemas, merged, hmembers, hdefinitions, hcomponents,
    hschemas, hmerge, rfl⟩ := convert_ok h
  have hold : raw ∈ (Json.object members).refs → ∃ old ∈ document.refs, raw = moveRef old := by
    intro hmem
    rw [← hmembers, moveRefs, Json.refs_mapRefs] at hmem
    obtain ⟨old, hold, rfl⟩ := List.mem_map.mp hmem
    exact ⟨old, hold, rfl⟩
  have hrest : ∀ raw ∈ (Json.object (Entries.erase members Schema.definitionsKey)).refs,
      raw ∈ (Json.object members).refs := by
    intro raw hraw
    rw [Json.refs_object, List.mem_flatMap] at hraw ⊢
    obtain ⟨entry, hentry, hraw⟩ := hraw
    exact ⟨entry, Entries.mem_of_mem_erase hentry, hraw⟩
  refine hold ?_
  rcases Json.mem_refs_insert hraw with hraw | hraw
  · rw [Json.refsAt_object] at hraw
    rcases Json.mem_refs_insert hraw with hraw | hraw
    · -- a schema of the merged components comes from one side or the other
      rw [Json.refsAt_object, Json.refs_object, List.mem_flatMap] at hraw
      obtain ⟨entry, hentry, hraw⟩ := hraw
      rcases mem_merge hmerge hentry with hcomponent | hdefinition
      · refine hrest raw (mem_refs_of_objectAt hcomponents (mem_refs_of_objectAt hschemas ?_))
        rw [Json.refs_object]
        exact List.mem_flatMap.mpr ⟨entry, hcomponent, hraw⟩
      · refine mem_refs_of_objectAt hdefinitions ?_
        rw [Json.refs_object]
        exact List.mem_flatMap.mpr ⟨entry, hdefinition, hraw⟩
    · exact hrest raw (mem_refs_of_objectAt hcomponents hraw)
  · exact hrest raw hraw

/-- No reference of what comes out leads below the definitions. -/
theorem clear_of_convert (h : convert document = .ok out) : ∀ raw ∈ out.refs, Clear raw := by
  intro raw hraw
  obtain ⟨old, -, rfl⟩ := refs_of_convert h hraw
  exact clear_moveRef old

/-- The definitions are gone. -/
theorem gone_of_convert (h : convert document = .ok out)
    (hsorted : ∀ members, document = .object members → Entries.Sorted members) :
    out.get? Schema.definitionsKey = none := by
  obtain ⟨members, definitions, components, schemas, merged, hmembers, -, -, -, -, rfl⟩ :=
    convert_ok h
  obtain ⟨old, rfl⟩ := eq_object_of_mapRefsEnd (p := []) hmembers
  rw [moveRefs, Json.mapRefs_object, Json.object.injEq] at hmembers
  have hmoved : Entries.Sorted members := hmembers ▸ List.pairwise_map.mpr (hsorted old rfl)
  show Entries.get? (Entries.insert "components" _ _) Schema.definitionsKey = none
  rw [Entries.get?_insert_ne (by decide), hmoved.get?_erase_self]

/-- Nothing is moved into components that were made by moving: without its definitions, of
which there are none, a document that was converted is what it was. -/
theorem convert_of_converted (h : convert document = .ok (.object merged))
    (hclear : ∀ raw ∈ (Json.object members).refs, Clear raw)
    (hdefinitions : objectAt members Schema.definitionsKey "definitions" = .ok [])
    (herase : Entries.erase members Schema.definitionsKey = merged) :
    convert (.object members) = .ok (.object merged) := by
  obtain ⟨old, definitions, components, schemas, found, -, -, -, -, -, hout⟩ := convert_ok h
  rw [Json.object.injEq] at hout
  subst hout
  have hconverted := convert_of_parts (moveRefs_of_clear hclear) hdefinitions
    (show objectAt _ "components" "components" = .ok _ by
      rw [herase, objectAt, Entries.get?_insert_self])
    (show objectAt _ "schemas" "components/schemas" = .ok _ by
      rw [objectAt, Entries.get?_insert_self])
    (show merge _ [] = .ok found from rfl)
  rw [herase, Entries.insert_insert, Entries.insert_insert] at hconverted
  exact hconverted

/-- What comes out is an object without definitions. -/
theorem object_of_convert (h : convert document = .ok out)
    (hsorted : ∀ members, document = .object members → Entries.Sorted members) :
    ∃ members, out = .object members ∧ Entries.get? members Schema.definitionsKey = none := by
  obtain ⟨members, definitions, components, schemas, merged, -, -, -, -, -, hout⟩ := convert_ok h
  have hnone := gone_of_convert h hsorted
  rw [hout] at hnone
  exact ⟨_, hout, hnone⟩

/-- **Converting again changes nothing.** -/
theorem convert_again (h : convert document = .ok out) (hordered : document.Ordered) :
    convert out = .ok out := by
  obtain ⟨members, rfl, hgone⟩ := object_of_convert h fun members heq =>
    (heq ▸ hordered : Json.Ordered _).sorted
  refine convert_of_converted h (clear_of_convert h) ?_ (Entries.erase_of_get?_eq_none hgone)
  rw [objectAt, hgone]

/-- It changes nothing either when a node for definitions was put in and has stayed empty. -/
theorem convert_emptied (h : convert document = .ok (.object members))
    (hgone : Entries.get? members Schema.definitionsKey = none) :
    convert (.object (Entries.insert Schema.definitionsKey (.object []) members)) =
      .ok (.object members) := by
  refine convert_of_converted h ?_ ?_ (Entries.erase_insert hgone _)
  · intro raw hraw
    rcases Json.mem_refs_insert hraw with hnode | hold
    · simp [Json.refsAt_object] at hnode
    · exact clear_of_convert h raw hold
  · rw [objectAt, Entries.get?_insert_self]

/-! ### The conversion as a whole -/

/-- What a document has to be like for its definitions to be moved. -/
structure Convertible (document : Json) : Prop where
  definitions : ∀ u, resolve? document [Schema.definitionsKey] = some u → u.isObject = true
  components : ∀ u, resolve? document ["components"] = some u → u.isObject = true
  schemas : ∀ u, resolve? document path = some u → u.isObject = true
  /-- Where a definition and a component have one name, they are equal once their references
  are changed. -/
  agree : ∀ key v w,
    Entries.get? (nodeMembers (moveRefs document) [Schema.definitionsKey]) key = some v →
    Entries.get? (nodeMembers (moveRefs document) path) key = some w → (w == v) = true

/-- What has become of a document whose definitions were moved. -/
structure Converted (document out : Json) : Prop where
  gone : out.get? Schema.definitionsKey = none
  /-- A place below the definitions is found among the components, with its references
  changed. -/
  moved : ∀ key rest v,
    resolve? (moveRefs document) (Schema.definitionsKey :: key :: rest) = some v →
    resolve? out (path ++ key :: rest) = some v
  /-- Any other place is where it was, as it was or equal to that. -/
  kept : ∀ p v, p.head? ≠ some Schema.definitionsKey → ¬ p <+: path →
    resolve? (moveRefs document) p = some v → ∃ w, resolve? out p = some w ∧ (w == v) = true
  /-- The components are those that were there and the definitions. -/
  keys : ∃ schemas, resolve? out path = some (.object schemas) ∧ ∀ key,
    key ∈ Entries.keys schemas ↔
      key ∈ Entries.keys (nodeMembers document [Schema.definitionsKey]) ∨
        key ∈ Entries.keys (nodeMembers document path)
  refs : ∀ raw ∈ out.refs, ∀ reference name rest, Reference.parse raw = .ok reference →
    reference.pointer ≠ Schema.definitionsKey :: name :: rest
  again : convert out = .ok out

theorem resolve?_moveRefs_object_iff {q : Pointer} :
    (∀ u, resolve? (moveRefs document) q = some u → u.isObject = true) ↔
      ∀ u, resolve? document q = some u → u.isObject = true := by
  unfold moveRefs
  rw [resolve?_mapRefs]
  cases resolve? document q with
  | none => simp
  | some u => simp [isObject_mapRefsEnd]

/-- What was converted could be. -/
theorem convertible_of_convert (h : convert document = .ok out)
    (hnodup : DefinitionsNodup (moveRefs document)) : Convertible document := by
  have hne : Schema.definitionsKey ≠ "components" := by decide
  obtain ⟨-, -, -, hagree⟩ := resolve?_convert_path h hnodup
  obtain ⟨members, definitions, components, schemas, merged, hmembers, hdefinitions,
    hcomponents, hschemas, -, -⟩ := convert_ok h
  refine ⟨resolve?_moveRefs_object_iff.mp fun u hu => ?_,
    resolve?_moveRefs_object_iff.mp fun u hu => ?_,
    resolve?_moveRefs_object_iff.mp fun u hu => ?_, hagree⟩
  · rw [hmembers, resolve?_member] at hu
    exact exists_objectAt_iff.mp ⟨_, hdefinitions⟩ u hu
  · rw [hmembers, resolve?_member, ← Entries.get?_erase_ne hne] at hu
    exact exists_objectAt_iff.mp ⟨_, hcomponents⟩ u hu
  · rw [hmembers] at hu
    replace hu : resolve? (.object members) ("components" :: "schemas" :: []) = some u := hu
    rw [resolve?_object, ← Entries.get?_erase_ne hne, ← resolve?_object,
      resolve?_objectAt hcomponents, resolve?_member] at hu
    exact exists_objectAt_iff.mp ⟨_, hschemas⟩ u hu

/-- **A document is converted exactly if it can be.** -/
theorem exists_convert_iff (hobject : document.isObject = true) (hordered : document.Ordered) :
    (∃ out, convert document = .ok out) ↔ Convertible document := by
  have hne : Schema.definitionsKey ≠ "components" := by decide
  constructor
  · rintro ⟨out, h⟩
    exact convertible_of_convert h (definitionsNodup_of_ordered hordered)
  · intro h
    obtain ⟨old, rfl⟩ : ∃ old, document = .object old := by
      cases document with
      | object old => exact ⟨old, rfl⟩
      | null | bool _ | number _ | string _ | array _ => simp [Json.isObject] at hobject
    obtain ⟨members, hmembers⟩ : ∃ members, moveRefs (.object old) = .object members :=
      ⟨_, Json.mapRefs_object _ _⟩
    have hobjects : ∀ key, (∀ u, resolve? (.object old) [key] = some u → u.isObject = true) →
        ∀ u, Entries.get? members key = some u → u.isObject = true := by
      intro key hkey u hu
      refine resolve?_moveRefs_object_iff.mpr hkey u ?_
      rw [hmembers, resolve?_member, hu]
    have hcomponent := hobjects "components" h.components
    rw [← Entries.get?_erase_ne hne] at hcomponent
    obtain ⟨definitions, hdefinitions⟩ := exists_objectAt_iff.mpr (hobjects _ h.definitions)
    obtain ⟨components, hcomponents⟩ := exists_objectAt_iff.mpr hcomponent
    have hschema : ∀ u, Entries.get? components "schemas" = some u → u.isObject = true := by
      intro u hu
      refine resolve?_moveRefs_object_iff.mpr h.schemas u ?_
      rw [hmembers]
      show resolve? (.object members) ("components" :: "schemas" :: []) = some u
      rw [resolve?_object, ← Entries.get?_erase_ne hne, ← resolve?_object,
        resolve?_objectAt hcomponents, resolve?_member, hu]
    obtain ⟨schemas, hschemas⟩ := exists_objectAt_iff.mpr hschema
    obtain ⟨hleft, hright⟩ := nodeMembers_of_parts hmembers hdefinitions hcomponents hschemas
    have hnodup := definitions_nodup (hmembers ▸ definitionsNodup_of_ordered hordered) hdefinitions
    cases hmerge : merge schemas definitions with
    | ok merged => exact ⟨_, convert_of_parts hmembers hdefinitions hcomponents hschemas hmerge⟩
    | error error =>
        obtain ⟨name, v, w, -, hv, hw, hdiffers⟩ := merge_error hmerge hnodup
        rw [← hleft] at hv
        rw [← hright] at hw
        rw [h.agree name v w hv hw] at hdiffers
        simp at hdiffers

theorem converted (h : convert document = .ok out) (hordered : document.Ordered) :
    Converted document out := by
  have hnodup := definitionsNodup_of_ordered hordered
  have hconvertible := convertible_of_convert h hnodup
  obtain ⟨merged, hpath, hget, hagree⟩ := resolve?_convert_path h hnodup
  refine ⟨gone_of_convert h fun members heq => (heq ▸ hordered : Json.Ordered _).sorted,
    fun key rest v hv => resolve?_convert_definition h hnodup hv, ?_, ⟨merged, hpath, ?_⟩, ?_,
    convert_again h hordered⟩
  · intro p v hfirst habove hv
    by_cases hbelow : path <+: p
    · obtain ⟨t, rfl⟩ := hbelow
      cases t with
      | nil => exact absurd (by simp) habove
      | cons key rest =>
          have hnode := resolve?_moveRefs_object_iff.mpr hconvertible.schemas
          rw [resolve?_below_node hnode] at hv
          obtain ⟨next, hnext, hv⟩ := Option.bind_eq_some_iff.mp hv
          rw [resolve?_append, hpath, Option.bind_some, resolve?_object, hget]
          cases hdefinition : Entries.get?
              (nodeMembers (moveRefs document) [Schema.definitionsKey]) key with
          | none =>
              rw [Option.none_or, hnext, Option.bind_some, hv]
              exact ⟨v, rfl, BEq.rfl⟩
          | some d =>
              -- an equal definition has an equal value there
              have hrel := resolve?_beq (hagree key d next hdefinition hnext) rest
              rw [hv] at hrel
              rw [Option.some_or, Option.bind_some]
              generalize resolve? d rest = found at hrel ⊢
              cases hrel with
              | some hequal => exact ⟨_, rfl, BEq.symm hequal⟩
    · rw [resolve?_convert_outside h hfirst habove hbelow]
      exact ⟨v, hv, BEq.rfl⟩
  · intro key
    rw [← keys_nodeMembers_mapRefs moveRef document [Schema.definitionsKey],
      ← keys_nodeMembers_mapRefs moveRef document path, ← Entries.isSome_get?_iff,
      ← Entries.isSome_get?_iff, ← Entries.isSome_get?_iff, hget, Option.isSome_or,
      Bool.or_eq_true]
    rfl
  · intro raw hraw reference name rest hparse hpointer
    have hclear := clear_of_convert h raw hraw reference hparse
    rw [movePointer?_eq_some.mpr ⟨name, rest, hpointer, rfl⟩] at hclear
    simp at hclear

/-- **Definitions are moved and keep their meaning.** A reference to a definition is changed to
lead to the component of that name in the same document, and every other text stays. The
conversion succeeds exactly if what has to be an object is one and no name stands for two
different things. What comes out has every place where the changed references say, and nothing
is left to be moved. -/
theorem convert_keeps_meaning (hobject : document.isObject = true) (hordered : document.Ordered) :
    (∀ raw reference name rest, Reference.parse raw = .ok reference →
      reference.pointer = Schema.definitionsKey :: name :: rest →
      moveRef raw = documentPart raw ++ "#" ++ Pointer.format (path ++ name :: rest)) ∧
    (∀ raw, (∀ reference name rest, Reference.parse raw = .ok reference →
      reference.pointer ≠ Schema.definitionsKey :: name :: rest) → moveRef raw = raw) ∧
    ((∃ out, convert document = .ok out) ↔ Convertible document) ∧
    ∀ out, convert document = .ok out → Converted document out := by
  refine ⟨fun raw reference name rest => moveRef_of_definition, fun raw hother => ?_,
    exists_convert_iff hobject hordered, fun out h => converted h hordered⟩
  refine moveRef_of_other fun reference hparse => Option.eq_none_iff_forall_ne_some.mpr ?_
  intro q hq
  obtain ⟨name, rest, hpointer, -⟩ := movePointer?_eq_some.mp hq
  exact hother reference name rest hparse hpointer

/-- Two definitions, one of which is a component already, and a link to another document. -/
def catalog : Json :=
  .object
    [("components", .object [("schemas", .object [("Wheel", .object [("type", .null)])])]),
      ("definitions", .object
        [("Car", .object [("$ref", .string "#/definitions/Wheel")]),
          ("Wheel", .object [("type", .null)])]),
      ("paths", .object [("$ref", .string "cars.json#/definitions/Car")])]

theorem convert_keeps_meaning_catalog : Convertible catalog ∧
    ∃ out, convert catalog = .ok out ∧ Converted catalog out ∧
      out.refs = ["#/components/schemas/Wheel", "cars.json#/components/schemas/Car"] := by
  have hordered : catalog.Ordered := by
    simp only [catalog, List.forall_mem_cons, List.not_mem_nil, false_implies, implies_true,
      Json.ordered_object, Json.Ordered.string, Json.Ordered.null]
    decide +kernel
  have hobject : catalog.isObject = true := rfl
  obtain ⟨-, -, hsuccess, hspec⟩ := convert_keeps_meaning hobject hordered
  have hcheck : (convert catalog).toOption.map Json.refs =
      some ["#/components/schemas/Wheel", "cars.json#/components/schemas/Car"] := by
    decide +kernel
  cases hout : convert catalog with
  | error error => rw [hout] at hcheck; simp [Except.toOption] at hcheck
  | ok out =>
      rw [hout] at hcheck
      exact ⟨hsuccess.mp ⟨out, hout⟩, out, rfl, hspec out hout, Option.some.inj hcheck⟩

end Components

end SchemaBundle
