/-
Loaded documents keep their members in key order.

An object is a finite map, and a list of members is one only if no key stands in it
twice.  A document that broke this could have two definitions of its own under one key,
so what is proved about loaded documents assumes that they are in order.  Here is why
that is no restriction: whatever is read from a text is put in order while it is read,
from JSON by sorting every object, from YAML where a mapping becomes an object.
-/
import SchemaBundle.Files.Loader
import SchemaBundle.Proofs.Json

namespace SchemaBundle

/-- A computation in two steps succeeds when both of them do. -/
theorem Error.bind_eq_ok {ε α β : Type} {x : Except ε α} {f : α → Except ε β} {b : β} :
    (x >>= f) = .ok b ↔ ∃ a, x = .ok a ∧ f a = .ok b := by
  cases x with
  | ok a => simp [bind, Except.bind]
  | error error => simp [bind, Except.bind]

/-- It fails when one of them does. -/
theorem Error.bind_eq_error {α β : Type} {x : Except Error α} {f : α → Except Error β}
    {error : Error} :
    (x >>= f) = .error error ↔ x = .error error ∨ ∃ a, x = .ok a ∧ f a = .error error := by
  cases x with
  | ok a => simp [bind, Except.bind]
  | error found => simp [bind, Except.bind]

namespace Json

/-! ### Putting members in order -/

theorem ordered_ofMembers {members : List (String × Json)}
    (h : ∀ entry ∈ members, entry.2.Ordered) : (ofMembers members).Ordered :=
  .object (Entries.sorted_ofPairs members) fun entry hentry =>
    h entry (Entries.mem_of_mem_ofPairs hentry)

theorem sortItems_eq (items : List Json) : sortItems items = items.map sortKeys := by
  induction items with
  | nil => rfl
  | cons item rest ih => rw [sortItems, ih, List.map_cons]

theorem sortMembers_eq (members : List (String × Json)) :
    sortMembers members = Entries.mapValues sortKeys members := by
  induction members with
  | nil => rfl
  | cons entry rest ih =>
      rw [sortMembers, ih]
      rfl

theorem ordered_sortKeys (v : Json) : v.sortKeys.Ordered := by
  induction v with
  | null => exact .null
  | bool b => exact .bool b
  | number n => exact .number n
  | string s => exact .string s
  | array items ih =>
      rw [sortKeys, sortItems_eq]
      exact .array (List.forall_mem_map.mpr ih)
  | object members ih =>
      rw [sortKeys, sortMembers_eq]
      exact ordered_ofMembers (List.forall_mem_map.mpr ih)

theorem ordered_of_read? {text : String} {v : Json} (h : read? text = some v) : v.Ordered := by
  obtain ⟨written, -, rfl⟩ := Option.map_eq_some_iff.mp h
  exact written.ordered_sortKeys

end Json

/-! ### Documents in files -/

namespace Yaml.Value

mutual

/-- A value becomes an ordered one. -/
theorem ordered_of_toJson? (value : Value) {v : Json} (h : value.toJson? = some v) :
    v.Ordered := by
  cases value with
  | null => exact Option.some.inj h ▸ .null
  | bool b => exact Option.some.inj h ▸ .bool b
  | number n =>
      cases n with
      | int n => exact Option.some.inj h ▸ .number _
      | double x => exact Option.some.inj h ▸ .number _
      | notFinite name => exact Option.some.inj h ▸ .null
  | string s => exact Option.some.inj h ▸ .string s
  | sequence items =>
      obtain ⟨vs, hvs, rfl⟩ := Option.map_eq_some_iff.mp h
      exact .array (ordered_of_itemsToJson? items hvs)
  | mapping entries =>
      obtain ⟨members, hmembers, rfl⟩ := Option.map_eq_some_iff.mp h
      exact Json.ordered_ofMembers (ordered_of_entriesToJson? entries hmembers)
  | tagged tag value =>
      obtain ⟨w, hw, rfl⟩ := Option.map_eq_some_iff.mp h
      exact Json.ordered_ofMembers (List.forall_mem_singleton.mpr (ordered_of_toJson? value hw))

theorem ordered_of_itemsToJson? (items : List Value) {vs : List Json}
    (h : itemsToJson? items = some vs) : ∀ v ∈ vs, v.Ordered := by
  cases items with
  | nil =>
      obtain rfl := Option.some.inj h
      simp
  | cons item rest =>
      unfold itemsToJson? at h
      obtain ⟨w, hw, h⟩ := Option.bind_eq_some_iff.mp h
      obtain ⟨ws, hws, h⟩ := Option.bind_eq_some_iff.mp h
      obtain rfl := Option.some.inj h
      exact List.forall_mem_cons.mpr
        ⟨ordered_of_toJson? item hw, ordered_of_itemsToJson? rest hws⟩

theorem ordered_of_entriesToJson? (entries : List (Value × Value))
    {members : List (String × Json)} (h : entriesToJson? entries = some members) :
    ∀ entry ∈ members, entry.2.Ordered := by
  cases entries with
  | nil =>
      obtain rfl := Option.some.inj h
      simp
  | cons entry rest =>
      obtain ⟨key, value⟩ := entry
      unfold entriesToJson? at h
      obtain ⟨k, -, h⟩ := Option.bind_eq_some_iff.mp h
      obtain ⟨w, hw, h⟩ := Option.bind_eq_some_iff.mp h
      obtain ⟨rest', hrest, h⟩ := Option.bind_eq_some_iff.mp h
      obtain rfl := Option.some.inj h
      exact List.forall_mem_cons.mpr
        ⟨ordered_of_toJson? value hw, ordered_of_entriesToJson? rest hrest⟩

end

end Yaml.Value

theorem FileFormat.ordered_of_read {format : FileFormat} {path text : String} {v : Json}
    (h : format.read path text = .ok v) : v.Ordered := by
  cases format with
  | json =>
      simp only [read] at h
      split at h
      · rename_i w hread
        exact Except.ok.inj h ▸ Json.ordered_of_read? hread
      · simp at h
  | yaml =>
      simp only [read] at h
      split at h
      · simp at h
      · rename_i value _
        split at h
        · rename_i w hjson
          exact Except.ok.inj h ▸ value.ordered_of_toJson? hjson
        · simp at h

theorem FileSystem.ordered_of_document {fs : FileSystem} {path : String} {v : Json}
    (h : fs.document path = .ok v) : v.Ordered := by
  unfold document at h
  obtain ⟨format, -, h⟩ := Error.bind_eq_ok.mp h
  split at h
  · exact FileFormat.ordered_of_read h
  · simp at h

/-! ### Loaders -/

/-- A loader whose documents keep their members in key order. -/
def Loader.Ordered (loader : Loader) : Prop :=
  ∀ identity document, loader identity = .ok document → document.Ordered

theorem Loader.mem_of_ofDocuments {documents : List (String × Json)} {identity : String}
    {document : Json} (h : Loader.ofDocuments documents identity = .ok document) :
    (identity, document) ∈ documents := by
  unfold Loader.ofDocuments at h
  split at h
  · rename_i found hget
    rw [← Except.ok.inj h]
    exact Entries.mem_of_get? hget
  · simp at h

theorem Loader.ofDocuments_ordered {documents : List (String × Json)}
    (h : ∀ entry ∈ documents, entry.2.Ordered) : (Loader.ofDocuments documents).Ordered :=
  fun _ _ hanswer => h _ (Loader.mem_of_ofDocuments hanswer)

/-- **The files of a directory are ordered documents.** -/
theorem FileSystem.loader_ordered (fs : FileSystem) (base : String) : (fs.loader base).Ordered := by
  intro identity document hanswer
  unfold loader loadFrom at hanswer
  split at hanswer
  · rename_i found hload
    rw [← Except.ok.inj hanswer]
    dsimp only at hload
    split at hload
    · exact ordered_of_document hload
    · simp at hload
  · simp at hanswer

/-- A document is had when the loader answers with one that is not empty. -/
theorem Loader.exists_fetch_iff {loader : Loader} {identity : String} :
    (∃ document, loader.fetch identity = .ok document) ↔
      ∃ document, loader identity = .ok document ∧ document.isNull = false := by
  unfold Loader.fetch
  split
  · rename_i document hanswer
    cases hnull : document.isNull <;> simp [hanswer, hnull]
  · rename_i hanswer
    simp [hanswer]
  · rename_i hanswer
    simp [hanswer]

/-- A document that is not had is unresolvable, or the loader knows no such placeholder. -/
theorem Loader.fetch_error_cases {loader : Loader} {identity : String} {error : Error}
    (h : loader.fetch identity = .error error) :
    (∃ cause, error = .unresolvableReference identity cause) ∨
      ∃ placeholder, error = .unknownSchema placeholder ∧
        loader identity = .error (.error (.unknownSchema placeholder)) := by
  unfold Loader.fetch at h
  split at h
  · split at h
    · exact Or.inl ⟨_, (Except.error.inj h).symm⟩
    · simp at h
  · rename_i placeholder hanswer
    exact Or.inr ⟨placeholder, (Except.error.inj h).symm, hanswer⟩
  · exact Or.inl ⟨_, (Except.error.inj h).symm⟩

theorem Loader.of_fetch {loader : Loader} {identity : String} {document : Json}
    (h : loader.fetch identity = .ok document) : loader identity = .ok document := by
  unfold Loader.fetch at h
  split at h
  · rename_i found hfound
    split at h
    · simp at h
    · rw [hfound, Except.ok.inj h]
  · simp at h
  · simp at h

end SchemaBundle
