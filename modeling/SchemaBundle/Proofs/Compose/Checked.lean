/-
The placeholders of a template are checked first and filled afterwards.

Two scans read the references of a template.  The check asks of each one which placeholder it
names, and whether that has a type; the embedder asks where it leads.  They are written apart
but read a text in the same way, so what the check has passed is never the reason why embedding
fails.

A reference that is filled leads to a place of a generated schema.  That place moves twice, into
a definition when the schema is embedded, and to the components when the definitions are moved.
The second move reads the whole document once more.  A member called `$ref` is a reference to
it wherever it stands, also if it is a definition of that name; so a schema that is nothing but
a string does not survive under this name.
-/
import SchemaBundle.Proofs.Command
import SchemaBundle.Proofs.Compose.Template
import SchemaBundle.Proofs.Embed.Failure
import SchemaBundle.Proofs.Embed.Given
import SchemaBundle.Proofs.Embed.Meaning

namespace SchemaBundle

open Pointer MountPath
open Reference (documentPart placePart)
open Embedder (textOf)

/-- A text is read unless it has a `#` and what follows is no pointer. -/
theorem Reference.reads_iff {raw : String} :
    (∃ pointer, Pointer.parse (placePart raw) = .ok pointer) ↔
      ('#' ∈ raw.toList → ∃ reference, Reference.parse raw = .ok reference) := by
  by_cases h : '#' ∈ raw.toList
  · simp only [h, true_implies, Reference.parse_eq_ok, true_and]
    constructor
    · rintro ⟨pointer, hparse⟩
      exact ⟨_, pointer, hparse, rfl⟩
    · rintro ⟨-, pointer, hparse, -⟩
      exact ⟨pointer, hparse⟩
  · rw [(Reference.parts_of_not_mem h).2]
    exact ⟨fun _ hmem => absurd hmem h, fun _ => ⟨[], rfl⟩⟩

/-- The document that a reference names, if it names one. -/
def Embedder.Link.document? : Embedder.Link → Option String
  | .outside url _ => some url
  | _ => none

/-- A generator whose schemas keep their members in key order. -/
def Generator.Ordered (generator : Generator) : Prop :=
  ∀ type schema, generator type = .ok schema →
    schema.root.Ordered ∧ (Json.object schema.definitions).Ordered

theorem Schema.ordered_toDocument {schema : Schema} {document : Json}
    (hroot : schema.root.Ordered) (hdefinitions : (Json.object schema.definitions).Ordered)
    (h : schema.toDocument = .ok document) : document.Ordered := by
  unfold toDocument at h
  split at h
  · exact Except.ok.inj h ▸ hroot
  · split at h
    · rename_i members hmembers
      rw [hmembers, Json.ordered_object] at hroot
      rw [← Except.ok.inj h, Json.ordered_object]
      refine ⟨hroot.1.insert _ _, fun entry hentry => ?_⟩
      rcases Entries.mem_insert hentry with rfl | hold
      · exact hdefinitions
      · exact hroot.2 entry hold
    · simp at h

theorem Schema.toDocument_error {schema : Schema} {error : Error}
    (h : schema.toDocument = .error error) :
    error = .invalidDocument .definitionsWithoutObject := by
  unfold toDocument at h
  split at h
  · simp at h
  · split at h
    · simp at h
    · exact (Except.error.inj h).symm

theorem Generator.ofSchemas_ordered {schemas : List (String × Schema)}
    (h : ∀ entry ∈ schemas, entry.2.root.Ordered ∧ (Json.object entry.2.definitions).Ordered) :
    (Generator.ofSchemas schemas).Ordered := by
  intro type schema hanswer
  unfold ofSchemas at hanswer
  split at hanswer
  · rename_i found hfound
    exact Except.ok.inj hanswer ▸ h _ (Entries.mem_of_get? hfound)
  · simp at hanswer

namespace Composition

variable {c : Composition} {generator : Generator} {template composed : Json} {raw url : String}
  {raws : List String} {identity : String} {error : Error}

/-! ### The check -/

/-- **The check and the embedder read a text in the same way.** -/
theorem placeholder?_eq (hne : raw ≠ "") (template : Json) :
    c.placeholder? raw =
      ((c.embedder template).readLink raw).map Embedder.Link.document? := by
  have hclassify : (c.embedder template).classify = c.classify := rfl
  unfold placeholder? Embedder.readLink
  rw [hclassify]
  split
  · cases Reference.parse raw with
    | error reason => rfl
    | ok reference =>
        cases hurl : reference.url with
        | none => simp only [hurl]; rfl
        | some url =>
            simp only [hurl, Option.bind_some]
            split <;> rfl
  · by_cases hkind : c.classify raw = .link <;> simp [hkind, Except.map, Embedder.Link.document?]

theorem placeholder?_eq_ok {named : Option String} (hne : raw ≠ "") (template : Json) :
    c.placeholder? raw = .ok named ↔
      ∃ link, (c.embedder template).readLink raw = .ok link ∧ link.document? = named := by
  rw [placeholder?_eq hne template]
  cases (c.embedder template).readLink raw <;> simp [Except.map]

theorem checkRefs_eq_ok : c.checkRefs raws = .ok () ↔
    ∀ raw ∈ raws, ∃ named, c.placeholder? raw = .ok named ∧
      ∀ url, named = some url →
        Entries.contains c.types (Identity.resolve none url) = true := by
  induction raws with
  | nil => simp [checkRefs]
  | cons raw rest ih =>
      rw [List.forall_mem_cons, ← ih]
      rw [checkRefs]
      cases hnamed : c.placeholder? raw with
      | error error => simp
      | ok named =>
          cases named with
          | none => simp
          | some url =>
              cases hmapped : Entries.contains c.types (Identity.resolve none url) <;>
                simp [hmapped]

/-- The references of a template can be filled: they can be read, and every placeholder that
one of them names has a type. -/
structure Covers (c : Composition) (template : Json) : Prop where
  reads : ∀ raw ∈ template.refs, '#' ∈ raw.toList →
    ∃ reference, Reference.parse raw = .ok reference
  mapped : ∀ raw ∈ template.refs, ∀ url, (c.embedder template).Names raw url →
    Entries.contains c.types (Identity.resolve none url) = true

/-- **The check passes exactly if the references can be filled.** -/
theorem checkRefs_iff (hrefs : ∀ raw ∈ template.refs, raw ≠ "") :
    c.checkRefs template.refs = .ok () ↔ c.Covers template := by
  rw [checkRefs_eq_ok]
  constructor
  · intro h
    refine ⟨fun raw hraw => ?_, fun raw hraw url hnames => ?_⟩
    · obtain ⟨named, hnamed, -⟩ := h raw hraw
      obtain ⟨link, hlink, -⟩ := (placeholder?_eq_ok (hrefs raw hraw) template).mp hnamed
      exact Reference.reads_iff.mp (Embedder.readLink_ok_iff.mp ⟨link, hlink⟩)
    · obtain ⟨named, hnamed, hmapped⟩ := h raw hraw
      obtain ⟨link, hlink, rfl⟩ := (placeholder?_eq_ok (hrefs raw hraw) template).mp hnamed
      obtain ⟨pointer, hparse⟩ := Embedder.readLink_ok_iff.mp ⟨link, hlink⟩
      have houtside := Embedder.readLink_outside.mpr ⟨hnames, hparse⟩
      obtain rfl := Except.ok.inj (hlink.symm.trans houtside)
      exact hmapped url rfl
  · intro h raw hraw
    obtain ⟨link, hlink⟩ :=
      Embedder.readLink_ok_iff.mpr (Reference.reads_iff.mpr (h.reads raw hraw))
    refine ⟨_, (placeholder?_eq_ok (hrefs raw hraw) template).mpr ⟨link, hlink, rfl⟩,
      fun url hurl => ?_⟩
    cases link with
    | keep => simp [Embedder.Link.document?] at hurl
    | inside pointer => simp [Embedder.Link.document?] at hurl
    | outside found pointer =>
        obtain rfl := Option.some.inj hurl
        exact h.mapped raw hraw found (Embedder.readLink_outside.mp hlink).1

/-- What is composed was checked. -/
theorem checkRefs_of_build (h : (c.build generator).outcome = .done composed)
    (hbase : c.base = some template) : c.checkRefs template.refs = .ok () := by
  obtain ⟨template', embedded, hbase', -, hcheck, -, -⟩ := build_done h
  obtain rfl : template = template' := Option.some.inj (hbase.symm.trans hbase')
  exact hcheck

/-! ### Where filling fails -/

/-- The document of a placeholder is the schema of its type. -/
theorem loader_of_type {type : String} (h : Entries.get? c.types identity = some type) :
    c.loader generator identity =
      ((generator type).bind Schema.toDocument).mapError Cause.error := by
  unfold loader
  rw [h]
  dsimp only
  cases (generator type).bind Schema.toDocument <;> rfl

theorem loader_eq_ok {document : Json} : c.loader generator identity = .ok document ↔
    ∃ type, Entries.get? c.types identity = some type ∧
      (generator type).bind Schema.toDocument = .ok document := by
  cases htype : Entries.get? c.types identity with
  | none => simp [loader, htype]
  | some type =>
      rw [loader_of_type htype]
      cases hdocument : (generator type).bind Schema.toDocument <;>
        simp [Except.mapError, hdocument]

theorem loader_ordered (h : generator.Ordered) : (c.loader generator).Ordered := by
  intro identity document hanswer
  obtain ⟨type, -, hdocument⟩ := loader_eq_ok.mp hanswer
  cases hschema : generator type with
  | error error => rw [hschema] at hdocument; simp [Except.bind] at hdocument
  | ok schema =>
      rw [hschema] at hdocument
      obtain ⟨hroot, hdefinitions⟩ := h type schema hschema
      exact Schema.ordered_toDocument hroot hdefinitions hdocument

/-- A placeholder that has a type is unknown only to the generator. -/
theorem loader_unknown {placeholder : String}
    (h : c.loader generator identity = .error (.error (.unknownSchema placeholder)))
    (hmapped : Entries.contains c.types identity = true) :
    ∃ type, Entries.get? c.types identity = some type ∧
      generator type = .error (.unknownSchema placeholder) := by
  obtain ⟨type, htype⟩ := Option.isSome_iff_exists.mp hmapped
  refine ⟨type, htype, ?_⟩
  rw [loader_of_type htype] at h
  cases hschema : generator type with
  | error error =>
      rw [hschema] at h
      simpa [Except.bind, Except.mapError] using h
  | ok schema =>
      rw [hschema] at h
      cases hdocument : schema.toDocument with
      | ok document => simp [Except.bind, Except.mapError, hdocument] at h
      | error error =>
          rw [Schema.toDocument_error hdocument] at hdocument
          simp [Except.bind, Except.mapError, hdocument] at h

/-- **What the check has passed is not the reason of a failure.** When a reference of the
template is not followed, it can be read all the same; and if a placeholder is said to be
unknown, then by the generator, which was asked for a type. -/
theorem error_of_covers {context context' : Context} (h : c.Covers template)
    (hrun : (c.embedder template).redirect (c.loader generator) none template context =
      .error error context') :
    (∀ raw reason, error ≠ .invalidReference raw reason) ∧
      ∀ placeholder, error = .unknownSchema placeholder →
        ∃ identity type, Entries.get? c.types identity = some type ∧
          generator type = .error (.unknownSchema placeholder) := by
  obtain ⟨before, raw, after, texts, c₁, hrefs, -, hfails⟩ := Embedder.redirect_error hrun
  have hraw : raw ∈ template.refs := by simp [hrefs]
  rcases Embedder.redirectRef_error hfails with hread | ⟨url, pointer, hlink, hembed⟩ | ⟨i, rfl⟩
  · obtain ⟨link, hlink⟩ :=
      Embedder.readLink_ok_iff.mpr (Reference.reads_iff.mpr (h.reads raw hraw))
    rw [hlink] at hread
    simp at hread
  · have hmapped := h.mapped raw hraw url (Embedder.readLink_outside.mp hlink).1
    rcases Embedder.ensureEmbedded_error_cases hembed with ⟨base, i, rfl⟩ | hfetch
    · simp
    · rcases Loader.fetch_error_cases hfetch with ⟨cause, rfl⟩ | ⟨unknown, rfl, hanswer⟩
      · simp
      · refine ⟨by simp, fun placeholder heq => ?_⟩
        obtain rfl := Error.unknownSchema.inj heq
        exact ⟨_, loader_unknown hanswer hmapped⟩
  · simp

/-! ### What is filled -/

/-- The text that a reference of a generated document has in the end. -/
def generatedText (c : Composition) (generator : Generator) (template : Json)
    (identity : String) : String → String :=
  Components.moveRef ∘ (c.embedder template).retarget
    ((c.embedder template).placeIn (c.lastContext generator template)) (some identity)

/-- The reference that stood at `q` in the template leads to a place below the components. If
there is something at `p` in the document of the given type, it is found there, with its
references changed. -/
structure FilledAt (composed : Json) (change : String → String) (q target : Pointer)
    (type : String) (document : Json) (p : Pointer) : Prop where
  text : resolve? composed (Components.place (q ++ ["$ref"])) =
    some (textOf (Components.path ++ target))
  below : target ≠ []
  found : (read? (.atRoot Schema.definitionsKey) document p).isSome →
    (resolve? composed (Components.path ++ target)).isSome
  /-- A text under the name `$ref` is taken for a reference itself. -/
  value : ∀ v, read? (.atRoot Schema.definitionsKey) document p = some v →
    v.string? = none ∨ (p.getLast? ≠ some "$ref" ∧ (p = [] → type ≠ "$ref")) →
    ∃ w, resolve? composed (Components.path ++ target) = some w ∧ (w == v.mapRefs change) = true

/-- A reference of the template to a place of a placeholder's document. -/
theorem build_fills_place (h : (c.build generator).outcome = .done composed)
    (hbase : c.base = some template) (hordered : template.Ordered) (hgenerator : generator.Ordered)
    {q : Pointer} (hloc : resolve? template (q ++ ["$ref"]) = some (.string raw))
    (hnames : (c.embedder template).Names raw url) :
    ∃ p type document target, Pointer.parse (placePart raw) = .ok p ∧
      Entries.get? c.types (Identity.resolve none url) = some type ∧
      (generator type).bind Schema.toDocument = .ok document ∧
      FilledAt composed (c.generatedText generator template (Identity.resolve none url))
        q target type document p := by
  obtain ⟨template', embedded, hbase', -, -, hrun, hconvert⟩ := build_done h
  obtain rfl : template = template' := Option.some.inj (hbase.symm.trans hbase')
  obtain ⟨existing, H, hfin⟩ := finished_of_embedding hrun
  have hnodup := definitionsNodup_embedded hfin hordered
  have hk := hfin.holds.keeps
  have hs := hfin.holds.sound (loader_ordered hgenerator)
  obtain ⟨p, r, hr, hparse, hid, hlink⟩ := hfin.root_leads hloc hnames
  obtain ⟨document, hfetch, htake⟩ := hfin.holds.documents r hr
  obtain ⟨type, htype, hdocument⟩ := loader_eq_ok.mp (hid ▸ Loader.of_fetch hfetch)
  have hnamed : (c.lastContext generator template).NamedAfter (c.embedder template).naming :=
    Embedder.namedAfter_endContext _ _ _ _
  have hword : ∀ base, Naming.Variant base "$ref" → base = "$ref" :=
    fun base hvariant => hvariant.eq_of_last rfl rfl
  obtain ⟨name, rest, hplace, hlast⟩ := hnamed.exists_place hk hs hr hword p
  replace hplace : (c.embedder template).place r.resource p =
    Schema.definitionsKey :: name :: rest := hplace
  have hmoved := hfin.moved hs hr htake
  have hin := (Embedder.placeIn_of_mem hk hr p).trans hplace
  rw [hplace] at hlink
  refine ⟨p, type, document, name :: rest, hparse, htype, hdocument,
    Components.convert_reference hconvert hnodup hlink, List.cons_ne_nil _ _, ?_, ?_⟩
  · intro hfound
    obtain ⟨w, hw⟩ := Option.isSome_iff_exists.mp ((hmoved.found p).mpr hfound)
    rw [hin] at hw
    rw [Components.convert_definition hconvert hnodup hw]
    rfl
  · intro v hv hend
    obtain ⟨w, hw, hequal⟩ := hmoved.value p v hv (hend.symm.imp_left And.left)
    rw [hin] at hw
    refine ⟨_, Components.convert_definition hconvert hnodup hw, ?_⟩
    rw [mapRefsEnd_eq, generatedText, ← Json.mapRefs_mapRefs, ← hid]
    · exact Json.mapRefs_beq hequal _
    · -- the new place ends in `$ref` only if the old one did, or for the type of that name
      rcases hend with hstring | ⟨hlastp, htypep⟩
      · rw [Json.string?_eq_of_beq hequal, Json.string?_mapRefs, hstring]
        exact Or.inr rfl
      · refine Or.inl fun hnewlast => ?_
        rcases hlast hnewlast with hold | ⟨hnil, hnaming⟩
        · exact hlastp hold
        · refine htypep hnil ?_
          rw [← hnaming, hid]
          show type = (Entries.get? c.types _).getD _
          rw [htype, Option.getD_some]

/-- **The check and the embedder agree, and what is composed is filled.** The check passes exactly
if the references of the template can be filled. If it passes, no reference of the template is
the reason of a failure. And if composing succeeds, every reference to a placeholder leads to
a place below the components, and there is what it named in the schema of the placeholder's
type. -/
theorem build_fills_checked (hbase : c.base = some template) (hordered : template.Ordered)
    (hgenerator : generator.Ordered) (hrefs : ∀ raw ∈ template.refs, raw ≠ "") :
    (c.checkRefs template.refs = .ok () ↔ c.Covers template) ∧
    (c.checkRefs template.refs = .ok () → ∀ context context' error,
      (c.embedder template).redirect (c.loader generator) none template context =
        .error error context' →
      (∀ raw reason, error ≠ .invalidReference raw reason) ∧
        ∀ placeholder, error = .unknownSchema placeholder →
          ∃ identity type, Entries.get? c.types identity = some type ∧
            generator type = .error (.unknownSchema placeholder)) ∧
    ∀ composed, (c.build generator).outcome = .done composed →
      ∀ q raw url, resolve? template (q ++ ["$ref"]) = some (.string raw) →
        (c.embedder template).Names raw url →
        ∃ p type document target, Pointer.parse (placePart raw) = .ok p ∧
          Entries.get? c.types (Identity.resolve none url) = some type ∧
          (generator type).bind Schema.toDocument = .ok document ∧
          FilledAt composed (c.generatedText generator template (Identity.resolve none url))
            q target type document p := by
  refine ⟨checkRefs_iff hrefs, fun hcheck context context' error hrun => ?_, ?_⟩
  · exact error_of_covers ((checkRefs_iff hrefs).mp hcheck) hrun
  · intro composed h q raw url hloc hnames
    exact build_fills_place h hbase hordered hgenerator hloc hnames

theorem ordered_workshopTypes : workshopTypes.Ordered := by
  refine Generator.ofSchemas_ordered ?_
  simp only [List.forall_mem_cons, List.not_mem_nil, false_implies, implies_true,
    Json.ordered_object, Json.Ordered.string]
  decide +kernel

theorem build_fills_checked_workshop :
    workshop.Covers workshopTemplate ∧
    ∃ composed type document target, (workshop.build workshopTypes).outcome = .done composed ∧
      resolve? workshopTemplate ["paths", "$ref"] = some (.string "car.json#/definitions/Wheel") ∧
      (workshopTypes type).bind Schema.toDocument = .ok document ∧
      FilledAt composed (workshop.generatedText workshopTypes workshopTemplate "car.json")
        ["paths"] target type document ["definitions", "Wheel"] := by
  have hbase : workshop.base = some workshopTemplate := rfl
  obtain ⟨composed, hbuild, -⟩ := Outcome.done_of_check (workshop.build workshopTypes).outcome
    (fun _ => true) (by decide +kernel)
  obtain ⟨hchecks, -, hfills⟩ := build_fills_checked hbase ordered_workshopTemplate
    ordered_workshopTypes (by decide +kernel)
  have hloc : resolve? workshopTemplate (["paths"] ++ ["$ref"]) =
      some (.string "car.json#/definitions/Wheel") := rfl
  have hnames : (workshop.embedder workshopTemplate).Names "car.json#/definitions/Wheel"
      "car.json" := ⟨by decide +kernel, by decide, by decide +kernel⟩
  have hparse : Pointer.parse (placePart "car.json#/definitions/Wheel") =
      .ok ["definitions", "Wheel"] := by decide +kernel
  have hidentity : Identity.resolve none "car.json" = "car.json" := by decide +kernel
  obtain ⟨p, type, document, target, hp, -, hdocument, hfilled⟩ :=
    hfills composed hbuild ["paths"] _ _ hloc hnames
  obtain rfl := Except.ok.inj (hparse.symm.trans hp)
  rw [hidentity] at hfilled
  exact ⟨hchecks.mp (checkRefs_of_build hbuild hbase), composed, type, document, target, hbuild,
    hloc, hdocument, hfilled⟩

/-! ### A schema that reads as a reference -/

/-- A template with one placeholder. -/
def labelTemplate : Json :=
  .object [("a", .object [("$ref", .string "label")])]

/-- The placeholder stands for a type that is called `$ref`. -/
def label : Composition :=
  { empty with base := some labelTemplate }.withSchema "label" "$ref"

/-- The schema of that type is a text. -/
def labelTypes : Generator :=
  Generator.ofSchemas [("$ref", .plain (.string "#/definitions/Car"))]

/-- Whether redirecting failed because a placeholder is unknown. -/
def saysUnknown (placeholder : String) : EStateM.Result Error Context Json → Bool
  | .error (.unknownSchema found) _ => found == placeholder
  | _ => false

theorem error_of_saysUnknown {placeholder : String} {result : EStateM.Result Error Context Json}
    (h : saysUnknown placeholder result = true) :
    ∃ context, result = .error (.unknownSchema placeholder) context := by
  unfold saysUnknown at h
  split at h
  · rename_i found context
    rw [beq_iff_eq.mp h]
    exact ⟨context, rfl⟩
  · simp at h

/-- **Two exceptions.** A schema that is a text is changed after all if its name is `$ref`. And a
generator may answer that a placeholder is unknown, although the template has a type for it. -/
theorem filled_otherwise :
    (label.Covers labelTemplate ∧ ∃ composed, (label.build labelTypes).outcome = .done composed ∧
      (label.embedder labelTemplate).Names "label" "label" ∧
      resolve? labelTemplate ["a", "$ref"] = some (.string "label") ∧
      label.loader labelTypes (Identity.resolve none "label") =
        .ok (.string "#/definitions/Car") ∧
      read? (.atRoot Schema.definitionsKey) (.string "#/definitions/Car") [] =
        some (.string "#/definitions/Car") ∧
      resolve? composed ["a", "$ref"] = some (textOf (Components.path ++ ["$ref"])) ∧
      ∃ w, resolve? composed (Components.path ++ ["$ref"]) = some w ∧
        ∀ change, (w == (Json.string "#/definitions/Car").mapRefs change) = false) ∧
    ∃ context, (label.embedder labelTemplate).redirect
      (label.loader fun _ => .error (.unknownSchema "car")) none labelTemplate
        (Context.start label.maxSuffix []) = .error (.unknownSchema "car") context := by
  obtain ⟨composed, hbuild, htexts⟩ := Outcome.done_of_check (label.build labelTypes).outcome
    (fun composed => Command.hasText composed ["a", "$ref"] "#/components/schemas/$ref" &&
      Command.hasText composed (Components.path ++ ["$ref"]) "#/components/schemas/Car")
    (by decide +kernel)
  obtain ⟨hlink, htext⟩ := Bool.and_eq_true_iff.mp htexts
  have hcovers : label.Covers labelTemplate :=
    (checkRefs_iff (by decide +kernel)).mp (checkRefs_of_build hbuild rfl)
  have hnames : (label.embedder labelTemplate).Names "label" "label" :=
    ⟨by decide +kernel, by decide, by decide +kernel⟩
  have hanswer : label.loader labelTypes "label" = .ok (.string "#/definitions/Car") :=
    loader_eq_ok.mpr ⟨"$ref", by decide +kernel, rfl⟩
  have hidentity : Identity.resolve none "label" = "label" := by decide +kernel
  refine ⟨⟨hcovers, composed, hbuild, hnames, rfl, hidentity ▸ hanswer, rfl,
    Command.resolve?_of_hasText hlink, _, Command.resolve?_of_hasText htext, fun change => ?_⟩, ?_⟩
  · show (Json.string _ == Json.string _) = false
    decide +kernel
  · exact error_of_saysUnknown (by decide +kernel)

end Composition

end SchemaBundle
