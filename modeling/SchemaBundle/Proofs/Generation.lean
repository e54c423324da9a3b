/-
Splitting, merging, and generating again.

A schema and its document are two forms of one thing, but a document can be without definitions
in three ways: it has no `definitions` member, an empty one, or one that is no object.  The last
belongs to the root and the first is what merging makes of no definitions, so the empty member is
all that splitting and merging lose.

Embedding always leaves a `definitions` member that is an object.  What a generated schema with
its documents embedded loses is therefore that member when it is empty, and nothing else.  Its
references are those of the embedded document, all of them inert; so generating it again embeds
nothing, puts the empty member back, and splits the same document.
-/
import SchemaBundle.Proofs.Embed.Again
import SchemaBundle.Schema

namespace SchemaBundle

open Pointer MountPath

namespace Schema

variable {schema : Schema} {members : List (String × Json)}

/-! ### Splitting and merging -/

/-- A document without its `definitions` member, if that is empty. -/
def withoutEmpty : Json → Json
  | .object members =>
    match Entries.get? members definitionsKey with
    | some (.object []) => .object (Entries.erase members definitionsKey)
    | _ => .object members
  | document => document

/-- **What was split is merged again**, but for an empty `definitions` member. -/
theorem toDocument_ofDocument (hsorted : Entries.Sorted members) :
    (ofDocument (.object members)).bind toDocument = .ok (withoutEmpty (.object members)) := by
  simp only [ofDocument, withoutEmpty]
  cases hget : Entries.get? members definitionsKey with
  | none => rfl
  | some found =>
      cases found with
      | object definitions =>
          cases definitions with
          | nil => rfl
          | cons first rest =>
              show Except.ok (Json.object _) = _
              rw [hsorted.insert_erase hget]
      | null | bool _ | number _ | string _ | array _ => rfl

/-- **What was merged is split again**, where the root has no `definitions` member of its own. -/
theorem ofDocument_toDocument (hroot : schema.root = .object members)
    (hnone : Entries.get? members definitionsKey = none) :
    schema.toDocument.bind ofDocument = .ok schema := by
  obtain ⟨root, definitions⟩ := schema
  obtain rfl : root = .object members := hroot
  cases definitions with
  | nil =>
      show ofDocument (.object members) = _
      simp only [ofDocument, hnone]
  | cons first rest =>
      show ofDocument (.object (Entries.insert definitionsKey _ members)) = _
      simp only [ofDocument, Entries.get?_insert_self, Entries.erase_insert hnone]

end Schema

namespace Generator

variable {generator : Generator} {loader other : Loader} {steps more : Nat} {type : String}
  {d : Json} {out : Embedded} {schema : Schema}

/-! ### Generating with a loader -/

/-- The node of what a generator embeds is the member with the definitions. -/
theorem mount_standard : Embedder.standard.mount = .atRoot Schema.definitionsKey := rfl

/-- A schema whose document is an object has its documents embedded. -/
theorem generate_object (h : (generator type).bind Schema.toDocument = .ok d)
    (hobject : d.isObject = true) :
    generator.generate (some loader) steps type =
      ⟨(Embedder.standard.run loader steps d).loaded,
        (Embedder.standard.run loader steps d).outcome.andThen
          fun out => Schema.ofDocument out.document⟩ := by
  show generator.generateEmbedded loader steps type = _
  unfold generateEmbedded
  rw [h]
  simp only [hobject, Bool.not_true, Bool.false_eq_true, if_false]

/-- What is embedded into an object is an object that keeps definitions. -/
theorem members_of_run (h : (Embedder.standard.run loader steps d).outcome = .done out)
    (hordered : d.Ordered) :
    ∃ members node, out.document = .object members ∧ Entries.Sorted members ∧
      Entries.get? members Schema.definitionsKey = some (.object node) := by
  obtain ⟨-, existing, H, hfin⟩ := Embedder.finished_of_run h
  exact hfin.members_atRoot mount_standard hordered

/-- **A generated document is the embedded one**, without an empty `definitions` member. -/
theorem generateDocument_object (h : (generator type).bind Schema.toDocument = .ok d)
    (hobject : d.isObject = true) (hordered : d.Ordered) :
    generator.generateDocument (some loader) steps type =
      (Embedder.standard.run loader steps d).outcome.andThen
        fun out => .ok (Schema.withoutEmpty out.document) := by
  unfold generateDocument
  rw [generate_object h hobject]
  cases hrun : (Embedder.standard.run loader steps d).outcome with
  | done out =>
      obtain ⟨members, node, hdocument, hsorted, -⟩ := members_of_run hrun hordered
      have hmerge := Schema.toDocument_ofDocument hsorted
      simp only [Outcome.andThen, hdocument]
      rw [← hmerge]
      cases Schema.ofDocument (.object members) <;> rfl
  | failed error => rfl
  | unfinished => rfl

/-! ### Generating again -/

/-- An output that has no definition called `$ref` is embedded again to itself, also when an
empty `definitions` member was taken from it. -/
theorem run_withoutEmpty {members node : List (String × Json)}
    (h : (Embedder.standard.run loader steps d).outcome = .done out)
    (hdocument : out.document = .object members) (hsorted : Entries.Sorted members)
    (hnode : Entries.get? members Schema.definitionsKey = some (.object node))
    (hnone : Entries.get? node "$ref" = none) :
    Embedder.standard.run other more (Schema.withoutEmpty (.object members)) =
      ⟨[], .done ⟨.object members, .empty, []⟩⟩ := by
  obtain ⟨-, existing, H, hfin⟩ := Embedder.finished_of_run h
  have htext : ∀ text, out.definitions.get? "$ref" ≠ some (.string text) := by
    intro text htaken
    have hget := hfin.get?_node "$ref"
    rw [← hfin.definitions, htaken, Option.some_or, mount_standard, hdocument] at hget
    simp only [nodeMembers, segments, atRoot, List.nil_append, resolve?_object, hnode,
      Option.bind_some, resolve?_nil, hnone, reduceCtorEq] at hget
  cases node with
  | cons first rest =>
      have hsame : Schema.withoutEmpty (.object members) = .object members := by
        simp only [Schema.withoutEmpty, hnode]
      obtain ⟨found, hfound⟩ := (hfin.above (List.prefix_refl _)).1
      rw [hsame, ← hdocument]
      exact Embedder.run_inert (hfin.inert htext) (by rw [hdocument]; rfl) hfound
        (addAt_again hfin.added)
  | nil =>
      have hleft : Schema.withoutEmpty (.object members) =
          .object (Entries.erase members Schema.definitionsKey) := by
        simp only [Schema.withoutEmpty, hnode]
      have hinert : ∀ raw ∈ (Json.object (Entries.erase members Schema.definitionsKey)).refs,
          Embedder.standard.Inert raw := by
        intro raw hraw
        refine hfin.inert htext raw ?_
        rw [hdocument, Json.refs_object, List.mem_flatMap]
        rw [Json.refs_object, List.mem_flatMap] at hraw
        obtain ⟨entry, hentry, hraw⟩ := hraw
        exact ⟨entry, Entries.mem_of_mem_erase hentry, hraw⟩
      -- the empty member is put back
      rw [hleft, Embedder.run_of_inert_member mount_standard hinert (hsorted.get?_erase_self _),
        hsorted.insert_erase hnode]

/-- **What was generated is generated again from itself**: nothing is asked for, and the schema
comes back as it is. -/
theorem generate_again (h : (generator type).bind Schema.toDocument = .ok d)
    (hobject : d.isObject = true) (hordered : d.Ordered)
    (hdone : (generator.generate (some loader) steps type).outcome = .done schema)
    (hnone : Entries.get? schema.definitions "$ref" = none) {schemas : List (String × Schema)}
    {name : String} (hname : Entries.get? schemas name = some schema) :
    (Generator.ofSchemas schemas).generate (some other) more name = ⟨[], .done schema⟩ := by
  rw [generate_object h hobject] at hdone
  cases hrun : (Embedder.standard.run loader steps d).outcome with
  | done out =>
      obtain ⟨members, node, hdocument, hsorted, hnode⟩ := members_of_run hrun hordered
      have hsplit : Schema.ofDocument (.object members) =
          .ok ⟨.object (Entries.erase members Schema.definitionsKey), node⟩ := by
        simp only [Schema.ofDocument, hnode]
      simp only [hrun, Outcome.andThen, hdocument, hsplit, Outcome.ofExcept,
        Outcome.done.injEq] at hdone
      have hmerge := Schema.toDocument_ofDocument hsorted
      rw [hsplit, hdone] at hmerge
      have hyields : ((Generator.ofSchemas schemas) name).bind Schema.toDocument =
          .ok (Schema.withoutEmpty (.object members)) := by
        simp only [ofSchemas, hname]
        exact hmerge
      have hagain : (Schema.withoutEmpty (.object members)).isObject = true := by
        cases node <;> simp only [Schema.withoutEmpty, hnode, Json.isObject]
      rw [generate_object hyields hagain, run_withoutEmpty hrun hdocument hsorted hnode
        (by rw [← hnone, ← hdone])]
      simp only [Outcome.andThen, hsplit, hdone, Outcome.ofExcept]
  | failed error => simp [hrun, Outcome.andThen] at hdone
  | unfinished => simp [hrun, Outcome.andThen] at hdone

/-- **Splitting and merging lose nothing, and generating agrees with embedding.** A document that
is split and merged again is the same but for an empty `definitions` member, and a schema that is
merged and split again is the same if its root has no such member. Hence a generated document is
the embedded one without an empty `definitions` member, and fails with the same error. A schema
that was generated, with no definition called `$ref`, is generated again from itself unchanged,
and its loader is never asked. -/
theorem split_merge_generate :
    (∀ members, Entries.Sorted members →
      (Schema.ofDocument (.object members)).bind Schema.toDocument =
        .ok (Schema.withoutEmpty (.object members))) ∧
    (∀ (schema : Schema) members, schema.root = .object members →
      Entries.get? members Schema.definitionsKey = none →
      schema.toDocument.bind Schema.ofDocument = .ok schema) ∧
    ∀ (generator : Generator) type d, (generator type).bind Schema.toDocument = .ok d →
      d.isObject = true → d.Ordered →
      ∀ loader steps,
        (∀ error, generator.generateDocument (some loader) steps type = .failed error ↔
          (Embedder.standard.run loader steps d).outcome = .failed error) ∧
        (∀ document, generator.generateDocument (some loader) steps type = .done document ↔
          ∃ out, (Embedder.standard.run loader steps d).outcome = .done out ∧
            document = Schema.withoutEmpty out.document) ∧
        ∀ schema, (generator.generate (some loader) steps type).outcome = .done schema →
          Entries.get? schema.definitions "$ref" = none →
          ∀ schemas name, Entries.get? schemas name = some schema → ∀ other more,
            (Generator.ofSchemas schemas).generate (some other) more name = ⟨[], .done schema⟩ := by
  refine ⟨fun members hsorted => Schema.toDocument_ofDocument hsorted,
    fun schema members hroot hnone => Schema.ofDocument_toDocument hroot hnone, ?_⟩
  intro generator type d hyields hobject hordered loader steps
  rw [generateDocument_object hyields hobject hordered]
  refine ⟨?_, ?_, fun schema hdone hnone schemas name hname other more =>
    generate_again hyields hobject hordered hdone hnone hname⟩
  · intro error
    cases (Embedder.standard.run loader steps d).outcome <;>
      simp [Outcome.andThen, Outcome.ofExcept]
  · intro document
    cases (Embedder.standard.run loader steps d).outcome <;>
      simp [Outcome.andThen, Outcome.ofExcept, eq_comm]

/-- A type whose schema refers to one of the twins. -/
def twinsType : Generator :=
  Generator.ofSchemas [("Pair", ⟨.object [("$ref", .string "a.json")], [("Size", .null)]⟩)]

theorem split_merge_generate_twins :
    ∃ schema,
      (twinsType.generate (some (Loader.ofDocuments twins)) (Embedder.standard.stepBound twins)
        "Pair").outcome = .done schema ∧
      schema.definitions.length = 4 ∧
      (Generator.ofSchemas [("Pair", schema)]).generate (some fun _ => .error (.text "gone")) 0
        "Pair" = ⟨[], .done schema⟩ := by
  obtain ⟨schema, hdone, hcheck⟩ := Outcome.done_of_check
    (twinsType.generate (some (Loader.ofDocuments twins)) (Embedder.standard.stepBound twins)
      "Pair").outcome
    (fun schema => schema.definitions.length == 4 &&
      (Entries.get? schema.definitions "$ref").isNone) (by decide +kernel)
  obtain ⟨hlength, hnone⟩ := Bool.and_eq_true_iff.mp hcheck
  obtain ⟨-, -, hgenerate⟩ := split_merge_generate
  have hordered : twinsRoot.Ordered := by
    simp only [twinsRoot, Json.ordered_object, List.forall_mem_cons, List.not_mem_nil,
      false_implies, implies_true, Json.Ordered.string, Json.Ordered.null]
    decide +kernel
  obtain ⟨-, -, hagain⟩ := hgenerate twinsType "Pair" twinsRoot rfl rfl hordered
    (Loader.ofDocuments twins) (Embedder.standard.stepBound twins)
  exact ⟨schema, hdone, beq_iff_eq.mp hlength,
    hagain schema hdone (Option.isNone_iff_eq_none.mp hnone) _ "Pair" rfl _ _⟩

end Generator

end SchemaBundle
