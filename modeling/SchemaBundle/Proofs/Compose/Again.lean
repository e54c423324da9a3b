/-
What was composed has nothing left to fill.

Composing takes three steps, and each of them has to leave its own result alone.  That all
three do is due to the references.  Embedding makes every one of them inert.  Moving the
definitions changes the place that a text names but never the document, so a text that was
moved is inert still, and it leads to no definition any more.  Hence the check meets no
placeholder, the embedder asks for nothing, and there is nothing to be moved.

Two things are not that simple.  The empty text counts as a placeholder in the check, though
for the embedder it stays where it is; it was let through in the template, and no other text
becomes empty.  And embedding nothing still puts a node for the definitions into the document,
which moving takes away again.
-/
import SchemaBundle.Proofs.Compose.Checked
import SchemaBundle.Proofs.Embed.Again

namespace SchemaBundle

open Pointer MountPath
open Reference (documentPart placePart)

/-! ### References after the move -/

/-- The move changes the place that a text names, and not the document. -/
theorem Components.documentPart_moveRef (raw : String) :
    documentPart (moveRef raw) = documentPart raw := by
  rcases moveRef_cases raw with ⟨-, heq⟩ | ⟨p, heq⟩
  · rw [heq]
  · rw [heq, (Reference.parts_join (Reference.hash_not_mem_documentPart raw) _).1]

/-- Only the empty text becomes the empty text. -/
theorem Components.moveRef_eq_empty {raw : String} (h : moveRef raw = "") : raw = "" := by
  rcases moveRef_cases raw with ⟨-, heq⟩ | ⟨p, heq⟩
  · rw [← heq, h]
  · have hseparator : '#' ∈ (moveRef raw).toList := by
      rw [heq]
      simp
    rw [h] at hseparator
    exact absurd hseparator List.not_mem_nil

/-- **What is inert stays inert when it is moved.** -/
theorem Embedder.Inert.moveRef {e : Embedder} {raw : String} (h : e.Inert raw) :
    e.Inert (Components.moveRef raw) := by
  obtain ⟨hreads, hnames⟩ := inert_iff.mp h
  refine inert_iff.mpr ⟨?_, fun url hurl => hnames url ?_⟩
  · rcases Components.moveRef_cases raw with ⟨-, heq⟩ | ⟨p, heq⟩
    · rw [heq]
      exact hreads
    · rw [heq, (Reference.parts_join (Reference.hash_not_mem_documentPart raw) _).2]
      exact ⟨_, parse_format _⟩
  · unfold Names at hurl ⊢
    rwa [Components.documentPart_moveRef] at hurl

namespace Composition

variable {c : Composition} {generator : Generator} {template composed : Json}
  {embedded : Embedded} {raw : String}

/-! ### The references of what was composed -/

/-- No text was embedded under the name `$ref`, if none is a component of that name. -/
theorem text_of_composed (hkeeps : c.KeepsTemplate generator template composed embedded)
    (hrun : (c.embedding generator template).outcome = .done embedded)
    (htext : ∀ text, resolve? composed (Components.path ++ ["$ref"]) ≠ some (.string text)) :
    ∀ text, embedded.definitions.get? "$ref" ≠ some (.string text) := by
  intro text hget
  obtain ⟨existing, H, hfin⟩ := finished_of_embedding hrun
  have hgiven : "$ref" ∈ embedded.definitions.order := by
    rw [hfin.mem_order, ← hfin.definitions, hget]
    rfl
  obtain ⟨-, -, w, hw, hcomponent⟩ := hkeeps.generated "$ref" hgiven
  obtain rfl : .string text = w := Option.some.inj (hget.symm.trans hw)
  exact htext (Components.moveRef text) hcomponent

/-- A reference of what was composed is inert. -/
theorem inert_composed (hrun : (c.embedding generator template).outcome = .done embedded)
    (hconvert : Components.convert embedded.document = .ok composed)
    (htext : ∀ text, embedded.definitions.get? "$ref" ≠ some (.string text))
    (hraw : raw ∈ composed.refs) : (c.embedder template).Inert raw := by
  obtain ⟨existing, H, hfin⟩ := finished_of_embedding hrun
  obtain ⟨old, hold, rfl⟩ := Components.refs_of_convert hconvert hraw
  exact (hfin.inert htext old hold).moveRef

/-- The empty text is no reference of what was composed, unless it was one of the template or
is an ordinary link. -/
theorem empty_ref_composed (hrun : (c.embedding generator template).outcome = .done embedded)
    (hconvert : Components.convert embedded.document = .ok composed)
    (htext : ∀ text, embedded.definitions.get? "$ref" ≠ some (.string text))
    (hempty : "" ∈ composed.refs) : "" ∈ template.refs ∨ c.classify "" = .link := by
  obtain ⟨existing, H, hfin⟩ := finished_of_embedding hrun
  obtain ⟨old, hold, heq⟩ := Components.refs_of_convert hconvert hempty
  rw [Components.moveRef_eq_empty heq.symm] at hold
  exact hfin.empty_ref htext hold

/-! ### Each step again -/

/-- An inert reference names no placeholder. -/
theorem placeholder?_of_inert (hne : raw ≠ "") (h : (c.embedder template).Inert raw) :
    c.placeholder? raw = .ok none := by
  rw [placeholder?_eq_ok hne template]
  rcases h with hkeep | ⟨pointer, hinside⟩
  · exact ⟨_, hkeep, rfl⟩
  · exact ⟨_, hinside, rfl⟩

/-- The check passes again. -/
theorem checkRefs_again (hcheck : c.checkRefs template.refs = .ok ())
    (hinert : ∀ raw ∈ composed.refs, (c.embedder template).Inert raw)
    (hempty : "" ∈ composed.refs → "" ∈ template.refs ∨ c.classify "" = .link) :
    c.checkRefs composed.refs = .ok () := by
  rw [checkRefs_eq_ok] at hcheck ⊢
  intro raw hraw
  by_cases hne : raw = ""
  · subst hne
    rcases hempty hraw with hold | hlink
    · exact hcheck "" hold
    · refine ⟨none, ?_, by simp⟩
      simp [placeholder?, hlink]
  · exact ⟨none, placeholder?_of_inert hne (hinert raw hraw), by simp⟩

/-- The check does not look at the template. -/
theorem checkRefs_base (base : Option Json) (raws : List String) :
    ({ c with base } : Composition).checkRefs raws = c.checkRefs raws := by
  induction raws with
  | nil => rfl
  | cons raw rest ih =>
      rw [checkRefs, checkRefs, ih]
      rfl

/-- A template that has only inert references and no definitions is built by moving nothing:
embedding puts an empty node for the definitions there, and does nothing else. -/
theorem build_of_inert {members : List (String × Json)} (hbase : c.base = some (.object members))
    (hcheck : c.checkRefs (Json.object members).refs = .ok ())
    (hinert : ∀ raw ∈ (Json.object members).refs, (c.embedder (.object members)).Inert raw)
    (hgone : Entries.get? members Schema.definitionsKey = none)
    (hconvert : Components.convert
      (.object (Entries.insert Schema.definitionsKey (.object []) members)) = .ok composed) :
    c.build generator = ⟨[], .done composed⟩ := by
  have hmount : (c.embedder (.object members)).mount = .atRoot Schema.definitionsKey := rfl
  have hrun : c.embedding generator (.object members) =
      ⟨[], .done ⟨.object (Entries.insert Schema.definitionsKey (.object []) members),
        .empty, []⟩⟩ := Embedder.run_of_inert_member hmount hinert hgone
  unfold embedding at hrun
  unfold build
  rw [hbase]
  simp only [Json.isObject, Bool.not_true, Bool.false_eq_true, if_false, hcheck, hrun,
    Outcome.andThen, hconvert, Outcome.ofExcept]

/-- **Composing is idempotent.** What was composed is composed again from itself: every
placeholder is filled already, so no schema is asked for, whatever the generator would answer,
and the document comes back as it is. A component that is a text and has the name `$ref` would
be a new reference. -/
theorem build_again (h : (c.build generator).outcome = .done composed)
    (hbase : c.base = some template) (hordered : template.Ordered)
    (htext : ∀ text, resolve? composed (Components.path ++ ["$ref"]) ≠ some (.string text)) :
    ∀ other, ({ c with base := some composed } : Composition).build other =
      ⟨[], .done composed⟩ := by
  intro other
  obtain ⟨template', embedded, hbase', hobject, hcheck, hrun, hconvert⟩ := build_done h
  obtain rfl : template = template' := Option.some.inj (hbase.symm.trans hbase')
  obtain ⟨existing, H, hfin⟩ := finished_of_embedding hrun
  have hkeeps := keepsTemplate hordered hobject hrun hconvert
  have hvalue := text_of_composed hkeeps hrun htext
  have hinert : ∀ raw ∈ composed.refs, (c.embedder template).Inert raw :=
    fun raw => inert_composed hrun hconvert hvalue
  have hagain := checkRefs_again hcheck hinert (empty_ref_composed hrun hconvert hvalue)
  obtain ⟨members, rfl, hgone⟩ :=
    Components.object_of_convert hconvert fun members => sorted_embedded hfin hordered
  -- which references are inert does not depend on the template either
  exact build_of_inert (c := { c with base := some (.object members) }) rfl
    ((checkRefs_base _ _).trans hagain) hinert hgone (Components.convert_emptied hconvert hgone)

theorem build_again_workshop :
    ∃ composed, (workshop.build workshopTypes).outcome = .done composed ∧
      ({ workshop with base := some composed } : Composition).build
        (fun type => .error (.unknownType type)) = ⟨[], .done composed⟩ ∧
      composed ≠ workshopTemplate := by
  obtain ⟨composed, hbuild, hcheck⟩ :=
    Outcome.done_of_check (workshop.build workshopTypes).outcome
      (fun composed => (resolve? composed (Components.path ++ ["$ref"])).isNone &&
        (resolve? composed [Schema.definitionsKey]).isNone) (by decide +kernel)
  obtain ⟨hnone, hgone⟩ := Bool.and_eq_true_iff.mp hcheck
  have htext : ∀ text, resolve? composed (Components.path ++ ["$ref"]) ≠ some (.string text) := by
    intro text htaken
    rw [htaken] at hnone
    simp at hnone
  refine ⟨composed, hbuild, build_again hbuild rfl ordered_workshopTemplate htext _, ?_⟩
  rintro rfl
  simp [workshopTemplate, resolve?, step?, Schema.definitionsKey, Entries.get?] at hgone

end Composition

end SchemaBundle
