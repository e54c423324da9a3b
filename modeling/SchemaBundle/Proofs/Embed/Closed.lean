/-
No reference is left dangling.

Embedding tears documents apart: the definitions of a document's own go to the mount node
one by one, and what is left of the document goes there without them.  References may name
any place of such a document, above, below or beside its definitions.  What is shown here
is that every one of these places has something standing at its new place, so that when
everything that was followed led somewhere, every reference of the output does.

One place is the exception.  The object that held a document's definitions is itself
gone, and a reference to the whole of it has nowhere to lead.  And one kind of text is not
a reference to begin with: a definition that is a string is content, but under the name
`$ref` it reads as a reference of the node.
-/
import SchemaBundle.Proofs.Embed.Loading
import SchemaBundle.Proofs.Embed.Meaning

namespace SchemaBundle

open Pointer MountPath
open Reference (documentPart placePart)

variable {e : Embedder} {loader : Loader} {existing : List String} {H : List Record}
  {c : Context} {root : Json} {out : Embedded} {steps : Nat} {scope : Option String}
  {i raw : String} {p : Pointer}

namespace MountPath

/-- A place that was there before a document's definitions were taken out is still read,
except the node that held them. -/
theorem read?_isSome {mount : MountPath} {document : Json}
    (hfound : (resolve? document p).isSome) (hnode : mount.Takes document → p ≠ mount.segments) :
    (mount.read? document p).isSome := by
  unfold read? takeDefinitions
  cases htake : takeFrom? mount.parents mount.key document with
  | none =>
      simp only [Option.getD_none, Entries.get?_nil]
      cases mount.below? p <;> exact hfound
  | some found =>
      obtain ⟨own, body⟩ := found
      have hne : p ≠ mount.segments := hnode (by unfold Takes; rw [htake]; rfl)
      simp only [Option.getD_some]
      cases hbelow : mount.below? p with
      | some found =>
          obtain ⟨key, rest⟩ := found
          -- the node was an object of definitions, so the place is in one of them
          rw [below?_eq_some.mp hbelow, resolve?_append, segments, takeFrom?_node htake,
            Option.bind_some, resolve?_object] at hfound
          simp only
          cases hget : Entries.get? own key with
          | none => rw [hget] at hfound; simp at hfound
          | some content => rw [hget, Option.bind_some] at hfound; exact hfound
      | none =>
          refine takeFrom?_found htake ?_ hfound
          rintro ⟨t, rfl⟩
          cases t with
          | nil => exact hne (List.append_nil _)
          | cons key rest =>
              have hsome : mount.below? (mount.segments ++ key :: rest) = some (key, rest) :=
                below?_eq_some.mpr rfl
              rw [segments, hbelow] at hsome
              simp at hsome

end MountPath

namespace Embedder

/-! ### Documents without dangling references -/

/-- A text leads to something in a document, when it is read as a reference that stays there. -/
def Resolves (document : Json) (raw : String) : Prop :=
  ∃ p, Pointer.parse (placePart raw) = .ok p ∧ (resolve? document p).isSome

/-- Every reference of a document that stays in it leads to something. -/
def Closed (e : Embedder) (document : Json) : Prop :=
  ∀ raw ∈ document.refs, e.Stays raw → Resolves document raw

instance (e : Embedder) (raw : String) : Decidable (e.Stays raw) :=
  inferInstanceAs (Decidable (_ ∧ _))

instance (document : Json) (raw : String) : Decidable (Resolves document raw) :=
  match hparse : Pointer.parse (placePart raw) with
  | .ok p => decidable_of_iff (resolve? document p).isSome (by simp [Resolves, hparse])
  | .error _ => .isFalse (by simp [Resolves, hparse])

instance (e : Embedder) (document : Json) : Decidable (e.Closed document) :=
  inferInstanceAs (Decidable (∀ raw ∈ document.refs, _))

/-- A place that a reference leads to, when it stands in the root or in a document that
has to be embedded. -/
inductive Reached (e : Embedder) (loader : Loader) (root : Json) : String → Pointer → Prop
  | root {raw i : String} {p : Pointer} (hraw : raw ∈ root.refs)
      (hleads : e.leadsTo? none raw = some (i, p)) : Reached e loader root i p
  | document {j raw i : String} {p : Pointer} {document : Json} (hj : e.Demanded loader root j)
      (hdocument : loader j = .ok document) (hraw : raw ∈ document.refs)
      (hleads : e.leadsTo? (some j) raw = some (i, p)) : Reached e loader root i p

/-- Every reference that is met leads to something: those that stay in the root lead to
something there, and the others to something in the document they name. -/
structure ClosedInput (e : Embedder) (loader : Loader) (root : Json) : Prop where
  stays : e.Closed root
  reached : ∀ i p document, e.Reached loader root i p → loader i = .ok document →
    (resolve? document p).isSome

/-- What is reached from a finite map of documents is read off the map. -/
theorem Reached.of_documents {documents : List (String × Json)} {P : String × Pointer → Prop}
    (hroot : ∀ raw ∈ root.refs, ∀ place ∈ e.leadsTo? none raw, P place)
    (hdocuments : ∀ entry ∈ documents, ∀ raw ∈ entry.2.refs,
      ∀ place ∈ e.leadsTo? (some entry.1) raw, P place)
    (h : e.Reached (Loader.ofDocuments documents) root i p) : P (i, p) := by
  cases h with
  | root hraw hleads => exact hroot _ hraw _ hleads
  | document _ hdocument hraw hleads =>
      exact hdocuments _ (Loader.mem_of_ofDocuments hdocument) _ hraw _ hleads

theorem ClosedInput.of_documents {documents : List (String × Json)} (hstays : e.Closed root)
    (hroot : ∀ raw ∈ root.refs, ∀ place ∈ e.leadsTo? none raw,
      ∀ entry ∈ documents, entry.1 = place.1 → (resolve? entry.2 place.2).isSome)
    (hdocuments : ∀ entry ∈ documents, ∀ raw ∈ entry.2.refs,
      ∀ place ∈ e.leadsTo? (some entry.1) raw,
        ∀ entry ∈ documents, entry.1 = place.1 → (resolve? entry.2 place.2).isSome) :
    e.ClosedInput (Loader.ofDocuments documents) root := by
  refine ⟨hstays, fun i p document hreached hdocument => ?_⟩
  exact Reached.of_documents hroot hdocuments hreached _
    (Loader.mem_of_ofDocuments hdocument) rfl

/-! ### Where references of the output come from -/

/-- What a reference has become when everything was followed. -/
theorem Settled.text_cases (h : e.Settled c scope raw)
    (hstays : e.Stays (e.retarget (e.placeIn c) scope raw)) :
    (∃ i p, e.leadsTo? scope raw = some (i, p) ∧ (c.resource? i).isSome ∧
      Pointer.parse (placePart (e.retarget (e.placeIn c) scope raw)) = .ok (e.placeIn c i p)) ∨
    (scope = none ∧ e.Stays raw ∧ e.retarget (e.placeIn c) scope raw = raw) := by
  cases hleads : e.leadsTo? scope raw with
  | some place =>
      obtain ⟨i, p⟩ := place
      refine Or.inl ⟨i, p, rfl, h.known i p hleads, ?_⟩
      rw [retarget_of_leads hleads, (Reference.parts_internal _).2, parse_format]
  | none =>
      have hkeep : e.retarget (e.placeIn c) scope raw = raw := by
        unfold retarget
        rw [hleads]
      rw [hkeep] at hstays
      cases scope with
      | none => exact Or.inr ⟨rfl, hstays, hkeep⟩
      | some identity =>
          -- in a document, a reference that stays there leads to a place of it
          obtain ⟨p, -, hsome, -⟩ := h.leads (Or.inr ⟨hstays, rfl⟩)
          rw [hleads] at hsome
          simp at hsome

namespace Finished

variable (hfin : e.Finished loader root existing H c out)
include hfin

/-- A definition of the output is a part of a loaded document, with its references
changed. -/
theorem entry_done {entry : String × Json} (hentry : entry ∈ c.definitions.entries) :
    ∃ r ∈ H, ∃ document content, loader r.identity = .ok document ∧
      (∀ raw ∈ content.refs, raw ∈ document.refs) ∧
      e.Done c (some r.identity) content entry.2 := by
  have hget : c.definitions.get? entry.1 = some entry.2 :=
    Entries.get?_of_mem hfin.entries_nodup hentry
  have hname : entry.1 ∈ (H.flatMap Record.pieces).map Piece.name :=
    (hfin.holds.keeps.stored.contains _).mp (by rw [hget]; rfl)
  obtain ⟨piece, hpiece, hname⟩ := List.mem_map.mp hname
  obtain ⟨w, hw, hdone⟩ := hfin.finished piece hpiece
  rw [hname, hget, Option.some.injEq] at hw
  subst hw
  obtain ⟨r, hr, hpiece⟩ := List.mem_flatMap.mp hpiece
  obtain ⟨document, hfetch, htake⟩ := hfin.holds.documents r hr
  have hrefs : ∀ raw, (raw ∈ r.body.refs → raw ∈ document.refs) ∧
      ∀ entry ∈ r.own, raw ∈ entry.2.refs → raw ∈ document.refs := by
    intro raw
    rw [← show (e.mount.takeDefinitions document).1 = r.own by rw [htake],
      ← show (e.mount.takeDefinitions document).2 = r.body by rw [htake]]
    exact mem_refs_takeDefinitions
  rcases Record.mem_pieces.mp hpiece with rfl | ⟨d, hd, -, rfl⟩
  · exact ⟨r, hr, document, r.body, Loader.of_fetch hfetch, fun raw => (hrefs raw).1, hdone⟩
  · have hown : (d.key, d.content) ∈ r.own := List.mem_map.mpr ⟨d, hd, rfl⟩
    exact ⟨r, hr, document, d.content, Loader.of_fetch hfetch,
      fun raw => (hrefs raw).2 _ hown, hdone⟩

/-- Something stands at the new place of every place that a reference leads to. -/
theorem placed (hs : e.Sound H) (hin : e.ClosedInput loader root)
    (hnode : ∀ i p document, e.Reached loader root i p → loader i = .ok document →
      e.mount.Takes document → p ≠ e.mount.segments)
    (hreached : e.Reached loader root i p) (hknown : (c.resource? i).isSome) :
    (resolve? out.document (e.placeIn c i p)).isSome := by
  obtain ⟨r, hr, rfl⟩ := hfin.mem_loaded.mp (hfin.mem_loaded_of_known hknown)
  obtain ⟨document, hfetch, htake⟩ := hfin.holds.documents r hr
  have hdocument := Loader.of_fetch hfetch
  have hread : (e.mount.read? document p).isSome :=
    read?_isSome (hin.reached _ _ _ hreached hdocument)
      fun htakes => hnode _ _ _ hreached hdocument htakes
  exact ((hfin.moved hs hr htake).found p).mpr hread

end Finished

/-- **Embedding leaves no reference dangling.** When every reference that is met leads to
something, and none to the whole of the object that holds a document's own definitions,
then every reference of the output that stays in it leads to something, as long as no
definition is a text that has the name `$ref`. -/
theorem run_closed (hl : loader.Ordered) (h : (e.run loader steps root).outcome = .done out)
    (hin : e.ClosedInput loader root)
    (hnode : ∀ i p document, e.Reached loader root i p → loader i = .ok document →
      e.mount.Takes document → p ≠ e.mount.segments)
    (htext : ∀ text, out.definitions.get? "$ref" ≠ some (.string text)) :
    e.Closed out.document := by
  obtain ⟨-, existing, H, hfin⟩ := finished_of_run h
  generalize e.endContext loader steps root = c at hfin
  have hs := hfin.holds.sound hl
  intro raw hraw hstays
  rcases mem_refs_addAt hfin.added hraw with hroot | ⟨entry, hentry, hnew⟩
  · -- a reference of the root
    rw [Json.refs_mapRefs] at hroot
    obtain ⟨old, hold, rfl⟩ := List.mem_map.mp hroot
    obtain ⟨w, hdone, -⟩ := hfin.root
    rcases (hdone.settled old hold).text_cases hstays with
      ⟨i, p, hleads, hknown, hparse⟩ | ⟨-, holdStays, hkeep⟩
    · exact ⟨_, hparse, hfin.placed hs hin hnode (Reached.root hold hleads) hknown⟩
    · obtain ⟨p, hparse, hfound⟩ := hin.stays old hold holdStays
      rw [rootText, hkeep]
      exact ⟨p, hparse, hfin.still_found hfound⟩
  · -- a reference in a definition, which is no reference of the node itself
    have hrefs : raw ∈ entry.2.refs := by
      unfold Json.refsAt at hnew
      cases href : refText? entry.1 entry.2 with
      | none => rw [href] at hnew; exact hnew
      | some text =>
          obtain ⟨hkey, hvalue⟩ := Json.refText?_eq_some href
          have hget : c.definitions.get? entry.1 = some entry.2 :=
            Entries.get?_of_mem hfin.entries_nodup hentry
          rw [hkey, hvalue, ← hfin.definitions] at hget
          exact absurd hget (htext text)
    obtain ⟨r, hr, document, content, hdocument, hsub, hdone⟩ := hfin.entry_done hentry
    rw [hdone.eq, Json.refs_mapRefs] at hrefs
    obtain ⟨old, hold, rfl⟩ := List.mem_map.mp hrefs
    rcases (hdone.settled old hold).text_cases hstays with
      ⟨i, p, hleads, hknown, hparse⟩ | ⟨hscope, -, -⟩
    · have hreached : e.Reached loader root i p :=
        Reached.document (hfin.demanded r hr) hdocument (hsub old hold) hleads
      exact ⟨_, hparse, hfin.placed hs hin hnode hreached hknown⟩
    · simp at hscope

theorem run_closed_twins :
    ∃ out, (standard.runOn twins twinsRoot).outcome = .done out ∧ standard.Closed out.document := by
  obtain ⟨out, h, htext⟩ := Outcome.done_of_check (standard.runOn twins twinsRoot).outcome
    (fun out => (out.definitions.get? "$ref").isNone) (by decide +kernel)
  have hin : standard.ClosedInput (Loader.ofDocuments twins) twinsRoot :=
    ClosedInput.of_documents (by decide +kernel) (by decide +kernel) (by decide +kernel)
  refine ⟨out, h, run_closed twins_ordered h hin (fun i p document hreached _ _ => ?_) ?_⟩
  · exact hreached.of_documents (P := fun place => place.2 ≠ standard.mount.segments)
      (by decide +kernel) (by decide +kernel)
  · intro text htaken
    rw [htaken] at htext
    simp at htext

/-! ### What dangles -/

/-- A document that refers to the whole of the object that holds its definitions. -/
def wholeNode : List (String × Json) :=
  [("a.json", .object
    [("$ref", .string "#/definitions"), ("definitions", .object [("K", .object [])])])]

/-- A document with a definition that reads as a reference of the object that holds it. -/
def textNode : List (String × Json) :=
  [("a.json", .object
    [("definitions", .object [("$ref", .string "#/title")]), ("title", .string "A")])]

/-- **Two ways to a dangling reference**, though every reference that is met leads to
something: the object that holds a document's definitions is gone, and a definition that
is a text may stand under the name `$ref`. -/
theorem closed_lost :
    (standard.ClosedInput (Loader.ofDocuments wholeNode) (.object [("$ref", .string "a.json")]) ∧
      ∃ out, (standard.runOn wholeNode (.object [("$ref", .string "a.json")])).outcome =
        .done out ∧ ¬ standard.Closed out.document) ∧
    standard.ClosedInput (Loader.ofDocuments textNode) (.object [("$ref", .string "a.json")]) ∧
      ∃ out, (standard.runOn textNode (.object [("$ref", .string "a.json")])).outcome =
        .done out ∧ ¬ standard.Closed out.document := by
  obtain ⟨out, hout, hdangles⟩ := Outcome.done_of_check
    (standard.runOn wholeNode (.object [("$ref", .string "a.json")])).outcome
    (fun out => !decide (standard.Closed out.document)) (by decide +kernel)
  obtain ⟨out', hout', hdangles'⟩ := Outcome.done_of_check
    (standard.runOn textNode (.object [("$ref", .string "a.json")])).outcome
    (fun out => !decide (standard.Closed out.document)) (by decide +kernel)
  refine ⟨⟨?_, out, hout, by simpa using hdangles⟩, ?_, out', hout', by simpa using hdangles'⟩
  · exact ClosedInput.of_documents (by decide +kernel) (by decide +kernel) (by decide +kernel)
  · exact ClosedInput.of_documents (by decide +kernel) (by decide +kernel) (by decide +kernel)

end Embedder

end SchemaBundle
