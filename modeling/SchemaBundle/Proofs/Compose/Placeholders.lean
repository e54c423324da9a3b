/-
Every placeholder is filled from its own file.

The way from a placeholder to a component leads through a type, a table of schemas, an
identity and a name.  The first half of it was gone in the mappings: the identity is
answered with the schema of the file, unless another file behind it stands in the way.
The second half is embedding and moving.  The document is stored, without its definitions,
under a name of its own; references to the whole of it lead to that name; and both move to
the components together.
-/
import SchemaBundle.Proofs.Compose.Mappings
import SchemaBundle.Proofs.Compose.Template
import SchemaBundle.Proofs.Embed.Loading
import SchemaBundle.Proofs.Embed.Meaning

namespace SchemaBundle

open Pointer MountPath
open Reference (documentPart placePart)
open Embedder (textOf)

namespace Composition

variable {c : Composition} {generator : Generator} {composed : Json}

theorem classify_embedder (c : Composition) (template : Json) :
    (c.embedder template).classify = Classifier.forTemplate c.absolute := rfl

end Composition

namespace Embedder

variable {e : Embedder} {loader : Loader} {existing : List String} {H : List Record}
  {c : Context} {root document : Json} {out : Embedded} {raw url : String} {q : Pointer}

/-- A reference of the root to the whole of a document leads to its name, under which the
document stands without its definitions and with its references changed. -/
theorem Finished.whole_document (hfin : e.Finished loader root existing H c out)
    (hloc : resolve? root (q ++ ["$ref"]) = some (.string raw)) (hnames : e.Names raw url)
    (hwhole : placePart raw = "") (hdocument : loader (Identity.resolve none url) = .ok document) :
    ∃ name f, resolve? out.document (q ++ ["$ref"]) =
        some (textOf (e.mount.segments ++ [name])) ∧
      resolve? out.document (e.mount.segments ++ [name]) =
        some ((e.mount.takeDefinitions document).2.mapRefs f) := by
  obtain ⟨p, r, hr, hparse, hid, hlink⟩ := hfin.root_leads hloc hnames
  obtain rfl : [] = p := by
    rw [hwhole] at hparse
    exact Except.ok.inj hparse
  obtain ⟨found, hfetch, htake⟩ := hfin.holds.documents r hr
  obtain rfl : found = document :=
    Except.ok.inj ((Loader.of_fetch hfetch).symm.trans (hid ▸ hdocument))
  obtain ⟨w, hw, hdone⟩ := hfin.done_body hr
  rw [place_nil] at hlink
  refine ⟨r.name, e.retarget (e.placeIn c) (some r.identity), hlink, ?_⟩
  rw [hfin.below_new hw, resolve?_nil, hdone.eq, htake]

end Embedder

namespace Composition

variable {c : Composition} {generator : Generator} {composed template filled : Json}
  {definitions members : List (String × Json)} {raw url : String} {q : Pointer}

/-- The reference that stood in the template at the pointer leads to a component, and that
is the given schema with its references changed. -/
def Filled (composed : Json) (q : Pointer) (schema : Json) : Prop :=
  ∃ name change,
    resolve? composed (Components.place (q ++ ["$ref"])) =
        some (textOf (Components.path ++ [name])) ∧
      resolve? composed (Components.path ++ [name]) = some (schema.mapRefs change)

/-- A reference of the template to the whole of a document leads to a component, and that
is the document without its definitions and with its references changed. -/
theorem build_fills (h : (c.build generator).outcome = .done composed)
    (hbase : c.base = some template) (hordered : template.Ordered)
    (hloc : resolve? template (q ++ ["$ref"]) = some (.string raw))
    (hnames : (c.embedder template).Names raw url) (hwhole : placePart raw = "")
    (hdocument : c.loader generator (Identity.resolve none url) = .ok filled)
    (htake : (MountPath.atRoot Schema.definitionsKey).takeDefinitions filled =
      (definitions, .object members)) :
    Filled composed q (.object members) := by
  obtain ⟨template', embedded, hbase', -, -, hrun, hconvert⟩ := build_done h
  obtain rfl : template = template' := Option.some.inj (hbase.symm.trans hbase')
  obtain ⟨existing, H, hfin⟩ := finished_of_embedding hrun
  have hnodup := definitionsNodup_embedded hfin hordered
  obtain ⟨name, f, hlink, hstored⟩ := hfin.whole_document hloc hnames hwhole hdocument
  refine ⟨name, Components.moveRef ∘ f, Components.convert_reference hconvert hnodup hlink, ?_⟩
  have hmount : (c.embedder template).mount = .atRoot Schema.definitionsKey := rfl
  rw [hmount, htake] at hstored
  show resolve? composed (Components.path ++ name :: []) = _
  rw [Components.convert_definition hconvert hnodup hstored, mapRefsEnd_eq _ (Or.inr ?_),
    Json.mapRefs_mapRefs]
  rw [Json.string?_mapRefs]
  rfl

end Composition

namespace Command

variable {s s' : Session} {setup : Setup} {base : String} {flags : List (String × String)}
  {destination : Destination}

/-- A command that composes fills the template and delivers the result. -/
theorem compose_ok {u : Unit} (h : compose setup base flags destination s = (.ok u, s')) :
    ∃ composed s₁ s₂ s₃, s₁.files = s.files ∧
      fill setup.config base flags s₁ = (.ok composed, s₂) ∧
      deliver setup composed destination s₂ = (.ok (), s₃) := by
  unfold compose at h
  obtain ⟨u₁, s₁, hprint, h⟩ := bind_eq_ok.mp h
  obtain ⟨composed, s₂, hfill, h⟩ := bind_eq_ok.mp h
  obtain ⟨u₂, s₃, hdeliver, -⟩ := bind_eq_ok.mp h
  rw [print_eq_ok] at hprint
  exact ⟨composed, s₁, s₂, s₃, by rw [← hprint], hfill, hdeliver⟩

/-- **Every placeholder is filled from its own file.** When a template was composed, every
reference in it to the whole of what a placeholder stands for, if it is one that is
followed, is filled with the root of the schema in the file of that placeholder, unless the
placeholder is shadowed. -/
theorem placeholders_filled
    (h : compose setup base flags destination s = (.ok (), s')) :
    ∃ template mapped composed s₁ s₂ s₃, s.files.document base = .ok template ∧
      mappings setup.config flags = .ok mapped ∧ s₁.files = s.files ∧
      fill setup.config base flags s₁ = (.ok composed, s₂) ∧
      deliver setup composed destination s₂ = (.ok (), s₃) ∧
      ∀ front p f back, mapped = front ++ (p, f) :: back → Unshadowed s.files p f back →
        ∃ document schema, s.files.document f = .ok document ∧
          Schema.ofDocument document = .ok schema ∧
          ∀ q raw, resolve? template (q ++ ["$ref"]) = some (.string raw) →
            documentPart raw ≠ "" → placePart raw = "" →
            Classifier.forTemplate (Classifier.bySuffix setup.config.embedder.suffixes)
              (documentPart raw) = .embeddable →
            Identity.resolve none (documentPart raw) = Identity.resolve none p →
            Composition.Filled composed q schema.root := by
  obtain ⟨composed, s₁, s₂, s₃, hfiles₁, hfill, hdeliver⟩ := compose_ok h
  have hfilled := hfill
  unfold fill at hfilled
  simp only [bind_eq_ok, ofOutcome_eq_ok] at hfilled
  obtain ⟨⟨c, table⟩, s₂', hcomposition, hbuild, rfl⟩ := hfilled
  obtain ⟨rfl, template, files, htemplate, hmapped, hfiles, hbase, habsolute, hsources⟩ :=
    composition_ok hcomposition
  refine ⟨template, _, composed, _, _, s₃, hfiles₁ ▸ htemplate, hmapped, hfiles₁, hfill,
    hdeliver, ?_⟩
  intro front p f back hsplit hclear
  rw [← hfiles₁] at hclear
  obtain ⟨document, schema, filled, hdocument, hschema, hfilled, hanswer⟩ :=
    answers_of_unshadowed hsources hfiles hsplit hclear
  refine ⟨document, schema, hfiles₁ ▸ hdocument, hschema, ?_⟩
  intro q raw hloc hne hwhole hclassify hidentity
  obtain ⟨filled', hfilled', ⟨members, hroot⟩, htake⟩ :=
    Schema.toDocument_ok hschema (FileSystem.ordered_of_document hdocument)
  obtain rfl : filled = filled' := Except.ok.inj (hfilled.symm.trans hfilled')
  rw [hroot] at htake ⊢
  have hfollowed : (c.embedder template).classify (documentPart raw) = .embeddable := by
    rw [Composition.classify_embedder, habsolute, hclassify]
  have hnames : (c.embedder template).Names raw (documentPart raw) := ⟨rfl, hne, hfollowed⟩
  rw [← hidentity] at hanswer
  exact Composition.build_fills hbuild hbase (FileSystem.ordered_of_document htemplate) hloc hnames
    hwhole hanswer htake

/-! ### Templates with placeholders of both kinds -/

/-- Templates with two placeholders, with one, and with a link, and files to fill them from. -/
def fleet : FileSystem :=
  ⟨.directory [("a.json", .file (some "\x7b\"title\":\"A\"\x7d")),
    ("b.json", .file (some "\x7b\"title\":\"B\",\"type\":\"string\"\x7d")),
    ("base.json", .file (some
      "\x7b\"bus\":\x7b\"$ref\":\"bus.json\"\x7d,\"car\":\x7b\"$ref\":\"car.json\"\x7d\x7d")),
    ("c.json", .file (some "\x7b\"title\":\"B\",\"type\":\"object\"\x7d")),
    ("home.json", .file (some "\x7b\"$ref\":\"https://sda.se\"\x7d")),
    ("stop.json", .file (some "\x7b\"$ref\":\"bus.json\"\x7d"))], []⟩

/-- Everything as usual. -/
def usual : Setup :=
  ⟨.standard, ⟨.human, false, false, 0⟩, ⟨false, .standard⟩, 0⟩

/-- A file of the fleet has a text at a place. -/
theorem fleet_text (path : String) (p : Pointer) (text : String)
    (h : checked (fun document => hasText document p text) (fleet.document path) = true) :
    ∃ document, fleet.document path = .ok document ∧ resolve? document p = some (.string text) := by
  obtain ⟨document, hdocument, htext⟩ := ok_of_checked h
  exact ⟨document, hdocument, resolve?_of_hasText htext⟩

/-- The car stands behind the bus, but it has another type. -/
theorem unshadowed_bus : Unshadowed fleet "bus.json" "b.json" [("car.json", "a.json")] := by
  have ha : ((fleet.document "a.json").bind (FileSystem.typeName "a.json")).toOption = some "A" := by
    decide +kernel
  have hb : ((fleet.document "b.json").bind (FileSystem.typeName "b.json")).toOption = some "B" := by
    decide +kernel
  constructor
  · intro q g hmem hidentity
    obtain ⟨rfl, rfl⟩ := Prod.mk.inj (List.mem_singleton.mp hmem)
    exact absurd hidentity (by decide +kernel)
  · intro q g d d' hmem hd hd' htype
    obtain ⟨rfl, rfl⟩ := Prod.mk.inj (List.mem_singleton.mp hmem)
    rw [hd] at ha
    rw [hd'] at hb
    have hsame : some "A" = some "B" := ha.symm.trans ((congrArg Except.toOption htype).trans hb)
    exact absurd hsame (by decide)

theorem placeholders_filled_fleet :
    ∃ s' template composed s₁ s₂,
      compose usual "base.json" [("bus.json", "b.json"), ("car.json", "a.json")] ⟨none, none⟩
        ⟨fleet, ""⟩ = (.ok (), s') ∧
      fleet.document "base.json" = .ok template ∧
      resolve? template ["bus", "$ref"] = some (.string "bus.json") ∧
      fill usual.config "base.json" [("bus.json", "b.json"), ("car.json", "a.json")] s₁ =
        (.ok composed, s₂) ∧
      ∃ document schema, fleet.document "b.json" = .ok document ∧
        Schema.ofDocument document = .ok schema ∧
        Composition.Filled composed ["bus"] schema.root := by
  obtain ⟨u, s', h, -⟩ := ok_of_check
    (compose usual "base.json" [("bus.json", "b.json"), ("car.json", "a.json")] ⟨none, none⟩)
    ⟨fleet, ""⟩ (fun _ _ => true) (by decide +kernel)
  obtain ⟨template', htemplate', hbus⟩ := fleet_text "base.json" ["bus", "$ref"] "bus.json"
    (by decide +kernel)
  obtain ⟨template, mapped, composed, s₁, s₂, s₃, htemplate, hmapped, -, hfill, -, hall⟩ :=
    placeholders_filled h
  obtain rfl : template' = template := Except.ok.inj (htemplate'.symm.trans htemplate)
  obtain rfl : [("bus.json", "b.json"), ("car.json", "a.json")] = mapped := Except.ok.inj hmapped
  obtain ⟨document, schema, hdocument, hschema, hleads⟩ :=
    hall [] "bus.json" "b.json" _ rfl unshadowed_bus
  have hfilled : Composition.Filled composed ["bus"] schema.root :=
    hleads ["bus"] "bus.json" hbus (by decide) (by decide) (by decide +kernel) rfl
  exact ⟨s', _, composed, s₁, s₂, h, htemplate, hbus, hfill, document, schema, hdocument, hschema,
    hfilled⟩

/-- **What is not filled.** A link stays a link when it is the only placeholder that is mapped.
And when two files have one title, the first placeholder is filled from the file of the
second. -/
theorem placeholder_not_filled :
    (∃ s' template composed,
      compose usual "home.json" [("https://sda.se", "b.json")] ⟨some "out.json", none⟩
        ⟨fleet, ""⟩ = (.ok (), s') ∧
      mappings usual.config [("https://sda.se", "b.json")] = .ok [("https://sda.se", "b.json")] ∧
      fleet.document "home.json" = .ok template ∧
      resolve? template ["$ref"] = some (.string "https://sda.se") ∧
      s'.files.document "out.json" = .ok composed ∧
      resolve? composed ["$ref"] = some (.string "https://sda.se")) ∧
    ∃ s' document composed,
      compose usual "stop.json" [("bus.json", "b.json"), ("car.json", "c.json")]
        ⟨some "out.json", none⟩ ⟨fleet, ""⟩ = (.ok (), s') ∧
      Identity.resolve none "car.json" ≠ Identity.resolve none "bus.json" ∧
      fleet.document "b.json" = .ok document ∧
      resolve? document ["type"] = some (.string "string") ∧
      s'.files.document "out.json" = .ok composed ∧
      resolve? composed ["$ref"] = some (textOf (Components.path ++ ["B"])) ∧
      resolve? composed (Components.path ++ ["B", "type"]) = some (.string "object") := by
  constructor
  · obtain ⟨u, s', h, hcheck⟩ := ok_of_check
      (compose usual "home.json" [("https://sda.se", "b.json")] ⟨some "out.json", none⟩)
      ⟨fleet, ""⟩ (fun _ s' => checked (fun composed => hasText composed ["$ref"] "https://sda.se")
        (s'.files.document "out.json")) (by decide +kernel)
    obtain ⟨composed, hcomposed, hkept⟩ := ok_of_checked hcheck
    obtain ⟨template, htemplate, hlink⟩ := fleet_text "home.json" ["$ref"] "https://sda.se"
      (by decide +kernel)
    exact ⟨s', template, composed, h, rfl, htemplate, hlink, hcomposed, resolve?_of_hasText hkept⟩
  · obtain ⟨u, s', h, hcheck⟩ := ok_of_check
      (compose usual "stop.json" [("bus.json", "b.json"), ("car.json", "c.json")]
        ⟨some "out.json", none⟩)
      ⟨fleet, ""⟩ (fun _ s' => checked (fun composed =>
          hasText composed ["$ref"] "#/components/schemas/B" &&
            hasText composed (Components.path ++ ["B", "type"]) "object")
        (s'.files.document "out.json")) (by decide +kernel)
    obtain ⟨composed, hcomposed, htexts⟩ := ok_of_checked hcheck
    obtain ⟨hlink, htype⟩ := Bool.and_eq_true_iff.mp htexts
    obtain ⟨document, hdocument, hstring⟩ := fleet_text "b.json" ["type"] "string"
      (by decide +kernel)
    exact ⟨s', document, composed, h, by decide +kernel, hdocument, hstring, hcomposed,
      resolve?_of_hasText hlink, resolve?_of_hasText htype⟩

end Command

end SchemaBundle
