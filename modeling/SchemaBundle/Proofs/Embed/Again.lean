/-
What was embedded has nothing left to embed.

A reference is inert when it is an ordinary link, or stays in the document that holds it: in
a root, neither is followed.  Everything a run writes is inert.  A reference that was followed
has the text of a place in the output, and such a text is read back as that place, whatever
characters its names hold.  A reference that was not followed was inert where it was found,
and whether a text is a link does not depend on where it stands.

So a second run over the output finds inert references only.  It redirects nothing, asks for
nothing and names nothing, and adding no definitions to a node that is there already leaves
the document as it is, to the order of its members.
-/
import SchemaBundle.Proofs.Embed.Closed
import SchemaBundle.Proofs.Embed.Links

namespace SchemaBundle

open Pointer MountPath
open Reference (documentPart placePart)

variable {e : Embedder} {loader : Loader} {existing : List String} {H : List Record}
  {c : Context} {root v : Json} {out : Embedded} {steps : Nat} {scope : Option String}
  {raw : String}

/-! ### Adding nothing -/

/-- Where entries were added, the node is there, and adding no entries changes nothing. -/
theorem MountPath.addAt_again {mount : MountPath} {additions : List (String × Json)}
    {path : Pointer} {out : Json} (h : addAt mount additions path v = .ok out) :
    addAt mount [] path out = .ok out := by
  induction path generalizing v out with
  | nil =>
      unfold addAt at h
      split at h
      · rw [← Except.ok.inj h]
        rfl
      · simp at h
  | cons segment rest ih =>
      obtain ⟨members, child, rfl, hchild, rfl⟩ := addAt_cons h
      have hagain := ih hchild
      rw [addAt_object, Entries.get?_insert_self, Option.getD_some, hagain]
      show Except.ok (Json.object _) = _
      rw [Entries.insert_insert]

namespace Embedder

/-! ### Inert references -/

/-- A reference that nothing is done about when it stands in a root. -/
def Inert (e : Embedder) (raw : String) : Prop :=
  e.readLink raw = .ok .keep ∨ ∃ pointer, e.readLink raw = .ok (.inside pointer)

/-- An inert reference names no document, or one that is an ordinary link. -/
theorem Inert.document (h : e.Inert raw) :
    documentPart raw = "" ∨ e.classify (documentPart raw) = .link := by
  rcases h with hkeep | ⟨pointer, hinside⟩
  · exact readLink_keep_document hkeep
  · exact Or.inl (readLink_inside.mp hinside).1.1

/-- The text of a place is read back as that place. -/
theorem readLink_internal (e : Embedder) (pointer : Pointer) :
    e.readLink (Reference.internal pointer).format = .ok (.inside pointer) := by
  obtain ⟨hdocument, hplace⟩ := Reference.parts_internal pointer
  have hseparator : '#' ∈ (Reference.internal pointer).format.toList := by
    simp [Reference.internal, Reference.format]
  apply readLink_inside.mpr
  rw [hplace, parse_format]
  exact ⟨⟨hdocument, Or.inl hseparator⟩, rfl⟩

/-- **Whatever a reference has become, it is inert.** -/
theorem Settled.inert (h : e.Settled c scope raw) :
    e.Inert (e.retarget (e.placeIn c) scope raw) := by
  cases hleads : e.leadsTo? scope raw with
  | some place =>
      obtain ⟨i, p⟩ := place
      rw [retarget_of_leads hleads]
      exact Or.inr ⟨_, e.readLink_internal _⟩
  | none =>
      have hsame : e.retarget (e.placeIn c) scope raw = raw := by
        unfold retarget
        rw [hleads]
      rw [hsame]
      obtain ⟨link, hlink⟩ := h.reads
      unfold leadsTo? at hleads
      rw [hlink] at hleads
      cases link with
      | keep => exact Or.inl hlink
      | inside pointer => exact Or.inr ⟨pointer, hlink⟩
      | outside url pointer => simp at hleads

/-- A text is inert if it can be read and names no document that is followed. -/
theorem inert_iff : e.Inert raw ↔
    (∃ pointer, Pointer.parse (placePart raw) = .ok pointer) ∧ ∀ url, ¬ e.Names raw url := by
  rw [← readLink_ok_iff (e := e)]
  constructor
  · intro h
    obtain ⟨link, hlink, hstays⟩ : ∃ link, e.readLink raw = .ok link ∧
        ∀ url pointer, link ≠ .outside url pointer := by
      rcases h with hkeep | ⟨pointer, hinside⟩
      · exact ⟨_, hkeep, by simp⟩
      · exact ⟨_, hinside, by simp⟩
    refine ⟨⟨link, hlink⟩, fun url hnames => ?_⟩
    obtain ⟨pointer, hparse⟩ := readLink_ok_iff.mp ⟨link, hlink⟩
    have houtside := readLink_outside.mpr ⟨hnames, hparse⟩
    exact hstays url pointer (Except.ok.inj (hlink.symm.trans houtside))
  · rintro ⟨⟨link, hlink⟩, hnames⟩
    cases link with
    | keep => exact Or.inl hlink
    | inside pointer => exact Or.inr ⟨pointer, hlink⟩
    | outside url pointer => exact absurd (readLink_outside.mp hlink).1 (hnames url)

/-- Every reference of the output is what a reference that was followed has become. -/
theorem Finished.origin (hfin : e.Finished loader root existing H c out)
    (htext : ∀ text, out.definitions.get? "$ref" ≠ some (.string text))
    (hraw : raw ∈ out.document.refs) :
    ∃ scope old, raw = e.retarget (e.placeIn c) scope old ∧ e.Settled c scope old ∧
      (scope = none → old ∈ root.refs) := by
  rcases mem_refs_addAt hfin.added hraw with hroot | ⟨entry, hentry, hnew⟩
  · -- a reference of the root
    rw [Json.refs_mapRefs] at hroot
    obtain ⟨old, hold, rfl⟩ := List.mem_map.mp hroot
    obtain ⟨w, hdone, -⟩ := hfin.root
    exact ⟨none, old, rfl, hdone.settled old hold, fun _ => hold⟩
  · -- a reference in a definition
    obtain ⟨r, -, -, content, -, -, hdone⟩ := hfin.entry_done hentry
    have hvalue : refText? entry.1 entry.2 = none := by
      cases href : refText? entry.1 entry.2 with
      | none => rfl
      | some text =>
          obtain ⟨hkey, hstring⟩ := Json.refText?_eq_some href
          have hget : c.definitions.get? entry.1 = some entry.2 :=
            Entries.get?_of_mem hfin.entries_nodup hentry
          rw [hkey, hstring, ← hfin.definitions] at hget
          exact absurd hget (htext text)
    unfold Json.refsAt at hnew
    rw [hvalue] at hnew
    simp only at hnew
    rw [hdone.eq, Json.refs_mapRefs] at hnew
    obtain ⟨old, hold, rfl⟩ := List.mem_map.mp hnew
    exact ⟨_, old, rfl, hdone.settled old hold, by simp⟩

theorem Finished.inert (hfin : e.Finished loader root existing H c out)
    (htext : ∀ text, out.definitions.get? "$ref" ≠ some (.string text)) :
    ∀ raw ∈ out.document.refs, e.Inert raw := by
  intro raw hraw
  obtain ⟨scope, old, rfl, hsettled, -⟩ := hfin.origin htext hraw
  exact hsettled.inert

/-- The empty text is no text of a place: where the output has it, the root had it, or it is
an ordinary link. -/
theorem Finished.empty_ref (hfin : e.Finished loader root existing H c out)
    (htext : ∀ text, out.definitions.get? "$ref" ≠ some (.string text))
    (hempty : "" ∈ out.document.refs) : "" ∈ root.refs ∨ e.classify "" = .link := by
  obtain ⟨scope, old, heq, -, hroot⟩ := hfin.origin htext hempty
  cases hleads : e.leadsTo? scope old with
  | some place =>
      obtain ⟨i, p⟩ := place
      rw [retarget_of_leads hleads] at heq
      have hseparator : '#' ∈ (Reference.internal (e.placeIn c i p)).format.toList := by
        simp [Reference.internal, Reference.format]
      rw [← heq] at hseparator
      exact absurd hseparator List.not_mem_nil
  | none =>
      obtain rfl : "" = old := by
        unfold retarget at heq
        rwa [hleads] at heq
      cases scope with
      | none => exact Or.inl (hroot rfl)
      | some identity =>
          -- in a document the empty text leads to the whole of it, unless it is a link
          right
          cases hkind : e.classify "" with
          | link => rfl
          | embeddable => simp [leadsTo?, readLink, hkind] at hleads

/-! ### A root that is left alone -/

theorem redirectRef_inert (h : e.Inert raw) :
    e.redirectRef loader none raw c = .ok raw c := by
  unfold redirectRef
  rcases h with hkeep | ⟨pointer, hinside⟩
  · rw [hkeep]
    rfl
  · rw [hinside]
    rfl

/-- A root whose references are inert is redirected to itself, and nothing is done. -/
theorem redirect_inert (h : ∀ raw ∈ v.refs, e.Inert raw) :
    e.redirect loader none v c = .ok v c := by
  have hsame : e.redirect loader none v c = .ok (v.mapRefs id) c :=
    redirect_of_refs fun raw hraw => redirectRef_inert (h raw hraw)
  rwa [Json.mapRefs_id] at hsame

/-- A run over a root with inert references does nothing but make the node for the
definitions. -/
theorem run_of_inert {document : Json} (hinert : ∀ raw ∈ v.refs, e.Inert raw)
    (hobject : v.isObject = true) (hexisting : e.existingNames v = .ok existing)
    (hadd : e.mount.addDefinitions [] v = .ok document) :
    e.run loader steps v = ⟨[], .done ⟨document, .empty, []⟩⟩ := by
  have hdrain : ∀ kept, e.drain loader steps (Context.start e.maxSuffix kept) =
      .ok true (Context.start e.maxSuffix kept) := by
    intro kept
    cases steps with
    | zero => rfl
    | succ steps => rfl
  have htraverse : ∀ kept, e.traverse loader steps v (Context.start e.maxSuffix kept) =
      .ok (some v) (Context.start e.maxSuffix kept) := by
    intro kept
    unfold traverse
    simp only [Embedding.bind_eq_ok, Embedding.pure_eq_ok]
    exact ⟨v, _, redirect_inert hinert, true, _, hdrain kept, rfl, rfl⟩
  have hfinish : ∀ kept, e.finish (Context.start e.maxSuffix kept) v =
      .ok ⟨document, .empty, []⟩ := by
    intro kept
    unfold finish
    rw [show (Context.start e.maxSuffix kept).definitions.entries = [] from rfl, hadd]
    rfl
  exact run_eq hobject hexisting (htraverse _) (hfinish _)

/-- A root with inert references and nothing at the node gets an empty object there. -/
theorem run_of_inert_member {key : String} {members : List (String × Json)}
    (hmount : e.mount = .atRoot key) (hinert : ∀ raw ∈ (Json.object members).refs, e.Inert raw)
    (hgone : Entries.get? members key = none) :
    e.run loader steps (.object members) =
      ⟨[], .done ⟨.object (Entries.insert key (.object []) members), .empty, []⟩⟩ := by
  have hsegments : e.mount.segments = [key] := by rw [hmount]; rfl
  have hexisting : e.existingNames (.object members) = .ok [] := by
    unfold existingNames
    rw [hsegments, resolve?_object, hgone]
    rfl
  have hadd : e.mount.addDefinitions [] (.object members) =
      .ok (.object (Entries.insert key (.object []) members)) := by
    unfold addDefinitions
    rw [hsegments, addAt_object, hgone]
    rfl
  exact run_of_inert hinert rfl hexisting hadd

/-- Where the node is there already, the root is left alone. -/
theorem run_inert {members : List (String × Json)} (hinert : ∀ raw ∈ v.refs, e.Inert raw)
    (hobject : v.isObject = true)
    (hnode : resolve? v e.mount.segments = some (.object members))
    (hadd : e.mount.addDefinitions [] v = .ok v) :
    e.run loader steps v = ⟨[], .done ⟨v, .empty, []⟩⟩ := by
  have hexisting : e.existingNames v = .ok (Entries.keys members) := by
    unfold existingNames
    rw [hnode]
  exact run_of_inert hinert hobject hexisting hadd

/-- **Embedding is idempotent and leaves nothing to embed.** Every reference of the output
stays in it or is an ordinary link; and embedding the output again, whatever documents there
are and however names are given, asks for none, adds nothing, and gives the output back. The
one way to make a new reference is a definition that is a text and has the name `$ref`. -/
theorem run_again (h : (e.run loader steps root).outcome = .done out)
    (htext : ∀ text, out.definitions.get? "$ref" ≠ some (.string text)) :
    (∀ raw ∈ out.document.refs,
      documentPart raw = "" ∨ e.classify (documentPart raw) = .link) ∧
    ∀ (other : Loader) (more : Nat) (naming : Naming) (reserved : List String)
        (maxSuffix : Nat),
      ({ e with naming, reserved, maxSuffix } : Embedder).run other more out.document =
        ⟨[], .done ⟨out.document, .empty, []⟩⟩ := by
  obtain ⟨-, existing, H, hfin⟩ := finished_of_run h
  have hinert := hfin.inert htext
  refine ⟨fun raw hraw => (hinert raw hraw).document, ?_⟩
  intro other more naming reserved maxSuffix
  obtain ⟨rootMembers, hobject⟩ := (hfin.above List.nil_prefix).1
  obtain ⟨members, hnode⟩ := (hfin.above (List.prefix_refl _)).1
  rw [resolve?_nil, Option.some.injEq] at hobject
  -- reading a reference does not depend on how names are given
  exact run_inert (e := { e with naming, reserved, maxSuffix }) hinert (by rw [hobject]; rfl)
    hnode (addAt_again hfin.added)

theorem run_again_twins :
    ∃ out, (standard.runOn twins twinsRoot).outcome = .done out ∧
      ({ standard with naming := fun _ => "other", reserved := ["a"], maxSuffix := 0 } :
          Embedder).run (fun _ => .error (.text "gone")) 0 out.document =
        ⟨[], .done ⟨out.document, .empty, []⟩⟩ := by
  obtain ⟨out, h, hnone⟩ := Outcome.done_of_check (standard.runOn twins twinsRoot).outcome
    (fun out => (out.definitions.get? "$ref").isNone) (by decide +kernel)
  have htext : ∀ text, out.definitions.get? "$ref" ≠ some (.string text) := by
    intro text htaken
    rw [htaken] at hnone
    simp at hnone
  obtain ⟨-, hagain⟩ := run_again h htext
  exact ⟨out, h, hagain _ 0 _ _ _⟩

end Embedder

end SchemaBundle
