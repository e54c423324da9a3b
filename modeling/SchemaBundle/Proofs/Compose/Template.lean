/-
Composing keeps what the template has.

The names for generated schemas are given while the template still has its definitions in one
place and its components in another, and the two are merged only afterwards.  What keeps them
apart is that the names of both are kept out from the start: those of the definitions because
they stand at the mount node, those of the components because they are reserved.  So what the
merge brings together under one name was there under that name twice, in the template itself.
-/
import SchemaBundle.Compose
import SchemaBundle.Proofs.Compose.Conversion
import SchemaBundle.Proofs.Embed.Frame

namespace SchemaBundle

open Pointer MountPath

namespace Composition

variable {c : Composition} {generator : Generator} {template composed : Json}
  {embedded : Embedded} {p : Pointer} {key name : String}

/-! ### What composing does -/

/-- The embedding of the generated schemas into a template. -/
def embedding (c : Composition) (generator : Generator) (template : Json) : Report Embedded :=
  (c.embedder template).run (c.loader generator)
    ((c.embedder template).stepBound (c.documents generator)) template

/-- The context in which it ends. -/
def lastContext (c : Composition) (generator : Generator) (template : Json) : Context :=
  (c.embedder template).endContext (c.loader generator)
    ((c.embedder template).stepBound (c.documents generator)) template

/-- The text that a reference of the template has in the end. -/
def newText (c : Composition) (generator : Generator) (template : Json) : String → String :=
  Components.moveRef ∘ (c.embedder template).rootText (c.lastContext generator template)

/-- What composing does when it succeeds. -/
theorem build_done (h : (c.build generator).outcome = .done composed) :
    ∃ template embedded, c.base = some template ∧ template.isObject = true ∧
      c.checkRefs template.refs = .ok () ∧
      (c.embedding generator template).outcome = .done embedded ∧
      Components.convert embedded.document = .ok composed := by
  unfold build at h
  split at h
  · simp at h
  · rename_i template hbase
    split at h
    · simp at h
    · rename_i hobject
      split at h
      · simp at h
      · rename_i hcheck
        refine ⟨template, ?_⟩
        cases hrun : (c.embedding generator template).outcome with
        | done embedded =>
            unfold embedding at hrun
            simp only [hrun, Outcome.andThen] at h
            refine ⟨embedded, hbase, by simpa using hobject, hcheck, rfl, ?_⟩
            cases hconvert : Components.convert embedded.document with
            | ok found => rw [hconvert] at h; rw [Outcome.done.inj h]
            | error error => rw [hconvert] at h; simp [Outcome.ofExcept] at h
        | failed error => unfold embedding at hrun; simp [hrun, Outcome.andThen] at h
        | unfinished => unfold embedding at hrun; simp [hrun, Outcome.andThen] at h

/-- What is known when the schemas were embedded. -/
theorem finished_of_embedding (h : (c.embedding generator template).outcome = .done embedded) :
    ∃ existing H, (c.embedder template).Finished (c.loader generator) template existing H
      (c.lastContext generator template) embedded :=
  (Embedder.finished_of_run h).2

theorem existingComponents_eq (template : Json) :
    existingComponents template = Entries.keys (nodeMembers template Components.path) := by
  unfold existingComponents nodeMembers
  cases resolve? template Components.path with
  | none => rfl
  | some u => cases u <;> rfl

/-! ### Between embedding and moving -/

section

variable {loader : Loader} {existing : List String} {H : List Record} {context : Context}
  (hfin : (c.embedder template).Finished loader template existing H context embedded)
include hfin

/-- The definitions of what is embedded into a template are a map still. -/
theorem definitionsNodup_embedded (hordered : template.Ordered) :
    Components.DefinitionsNodup (Components.moveRefs embedded.document) := by
  obtain ⟨document, hdone, hadd⟩ := hfin.root
  have hdocument : document.Ordered := hdone.eq ▸ hordered.mapRefs _
  obtain ⟨added, hnode, hsorted⟩ := addAt_sorted hdocument hadd
  intro definitions hdefinitions
  rw [Components.moveRefs, resolve?_mapRefs, Option.map_eq_some_iff] at hdefinitions
  obtain ⟨found, hfound, hend⟩ := hdefinitions
  obtain rfl : .object added = found := Option.some.inj (hnode.symm.trans hfound)
  rw [mapRefsEnd_eq _ (Or.inr rfl), Json.mapRefs_object, Json.object.injEq] at hend
  rw [← hend, Entries.keys, List.map_map]
  exact hsorted.keys_nodup

/-- The members of what is embedded into a template are in order. -/
theorem sorted_embedded (hordered : template.Ordered) {members : List (String × Json)}
    (h : embedded.document = .object members) : Entries.Sorted members := by
  have hmount : (c.embedder template).mount = .atRoot Schema.definitionsKey := rfl
  obtain ⟨found, node, hdocument, hsorted, -⟩ := hfin.members_atRoot hmount hordered
  rw [hdocument, Json.object.injEq] at h
  exact h ▸ hsorted

/-- Outside its definitions the template has only changed its references. -/
theorem resolve?_embedded (habove : ¬ p <+: [Schema.definitionsKey])
    (hbelow : ¬ [Schema.definitionsKey] <+: p) :
    resolve? (Components.moveRefs embedded.document) p = resolve? (template.mapRefs
      (Components.moveRef ∘ (c.embedder template).rootText context)) p := by
  rw [Components.moveRefs, resolve?_mapRefs, resolve?_mapRefs, hfin.outside habove hbelow,
    Option.map_map]
  congr 1
  funext v
  exact mapRefsEnd_mapRefsEnd _ _ p v

/-- The components are those of the template. -/
theorem get?_components (key : String) :
    Entries.get? (nodeMembers (Components.moveRefs embedded.document) Components.path) key =
      (Entries.get? (nodeMembers template Components.path) key).map
        (Json.mapRefsAt (Components.moveRef ∘ (c.embedder template).rootText context) key) := by
  rw [← get?_nodeMembers_mapRefs, nodeMembers, nodeMembers,
    resolve?_embedded hfin (by decide) (by decide)]

/-- The definitions are those of the template and new ones. -/
theorem get?_definitions (key : String) :
    Entries.get? (nodeMembers (Components.moveRefs embedded.document) [Schema.definitionsKey]) key =
      ((context.definitions.get? key).map (Json.mapRefsAt Components.moveRef key)).or
        ((Entries.get? (nodeMembers template [Schema.definitionsKey]) key).map
          (Json.mapRefsAt (Components.moveRef ∘ (c.embedder template).rootText context) key)) := by
  have hnode := hfin.get?_node key
  have hmount : (c.embedder template).mount.segments = [Schema.definitionsKey] := rfl
  rw [hmount] at hnode
  rw [Components.moveRefs, get?_nodeMembers_mapRefs, hnode]
  cases context.definitions.get? key with
  | some w => rfl
  | none =>
      rw [Option.none_or, Option.map_none, Option.none_or, Option.map_map]
      congr 1
      funext v
      exact Json.mapRefsAt_mapRefsAt _ _ key v

/-- Nothing is stored under a name that was not given. -/
theorem get?_last_eq_none (h : name ∉ embedded.definitions.order) :
    context.definitions.get? name = none := by
  rw [hfin.mem_order] at h
  exact Option.not_isSome_iff_eq_none.mp h

/-- What has to be an object after embedding was one in the template. -/
theorem isObject_of_embedded (habove : ¬ p <+: [Schema.definitionsKey])
    (hbelow : ¬ [Schema.definitionsKey] <+: p)
    (h : ∀ u, resolve? embedded.document p = some u → u.isObject = true) :
    ∀ u, resolve? template p = some u → u.isObject = true := by
  intro u hu
  have hafter := hfin.outside habove hbelow
  rw [hu, Option.map_some] at hafter
  exact isObject_mapRefsEnd _ p u ▸ h _ hafter

/-- **A name that was given to a generated schema** is no name of the template. -/
theorem new_name (h : name ∈ embedded.definitions.order) :
    name ∉ Entries.keys (nodeMembers template Components.path) ∧
      name ∉ Entries.keys (nodeMembers template [Schema.definitionsKey]) := by
  obtain ⟨hreserved, hnode⟩ := hfin.not_kept h
  refine ⟨?_, hnode⟩
  rw [← existingComponents_eq]
  exact hreserved

end

/-! ### The template in what was composed -/

/-- What a template and the composed document have in common. -/
structure KeepsTemplate (c : Composition) (generator : Generator) (template composed : Json)
    (embedded : Embedded) : Prop where
  /-- A component of the template is a component still. -/
  components : ∀ key v, Entries.get? (nodeMembers template Components.path) key = some v →
    ∃ w, resolve? composed (Components.path ++ [key]) = some w ∧
      (w == Json.mapRefsAt (c.newText generator template) key v) = true
  /-- A definition of the template has become a component. -/
  definitions : ∀ key v,
    Entries.get? (nodeMembers template [Schema.definitionsKey]) key = some v →
    resolve? composed (Components.path ++ [key]) =
      some (Json.mapRefsAt (c.newText generator template) key v)
  /-- Any other component was generated. -/
  others : ∀ key w, resolve? composed (Components.path ++ [key]) = some w →
    key ∈ Entries.keys (nodeMembers template Components.path) ∨
      key ∈ Entries.keys (nodeMembers template [Schema.definitionsKey]) ∨
        key ∈ embedded.definitions.order
  /-- What was generated is a component, under a name that the template does not have. -/
  generated : ∀ name ∈ embedded.definitions.order,
    name ∉ Entries.keys (nodeMembers template Components.path) ∧
      name ∉ Entries.keys (nodeMembers template [Schema.definitionsKey]) ∧
        ∃ w, embedded.definitions.get? name = some w ∧
          resolve? composed (Components.path ++ [name]) =
            some (Json.mapRefsAt Components.moveRef name w)
  /-- Outside the components and the definitions there is what was there, references aside. -/
  outside : ∀ p, p.head? ≠ some Schema.definitionsKey → ¬ p <+: Components.path →
    ¬ Components.path <+: p →
    resolve? composed p = (resolve? template p).map (mapRefsEnd (c.newText generator template) p)
  /-- On the way to the components are objects: those of the template and new ones. -/
  above : ∀ p, p <+: Components.path →
    (∃ members, resolve? composed p = some (.object members)) ∧
      ∀ u, resolve? template p = some u → u.isObject = true
  gone : composed.get? Schema.definitionsKey = none

theorem keepsTemplate (hordered : template.Ordered) (hobject : template.isObject = true)
    (hrun : (c.embedding generator template).outcome = .done embedded)
    (hconvert : Components.convert embedded.document = .ok composed) :
    c.KeepsTemplate generator template composed embedded := by
  obtain ⟨existing, H, hfin⟩ := finished_of_embedding hrun
  have hnodup := definitionsNodup_embedded hfin hordered
  have hleft := get?_definitions hfin
  have hright := get?_components hfin
  have hconvertible := Components.convertible_of_convert hconvert hnodup
  obtain ⟨merged, hpath, hget, hagree⟩ := Components.resolve?_convert_path hconvert hnodup
  have hcomponent : ∀ key,
      resolve? composed (Components.path ++ [key]) = Entries.get? merged key := by
    intro key
    rw [resolve?_append, hpath, Option.bind_some, Components.resolve?_member]
  exact
    { components := by
        intro key v hv
        have hv' := hright key
        rw [hv, Option.map_some] at hv'
        rw [hcomponent, hget, hv']
        cases hdefinition : Entries.get?
            (nodeMembers (Components.moveRefs embedded.document) [Schema.definitionsKey]) key with
        | none => exact ⟨_, rfl, BEq.rfl⟩
        | some d => exact ⟨d, rfl, BEq.symm (hagree key d _ hdefinition hv')⟩
      definitions := by
        intro key v hv
        have hkey : key ∉ embedded.definitions.order := fun hmem =>
          (new_name hfin hmem).2 (Entries.mem_keys_of_get? hv)
        rw [hcomponent, hget, hleft, get?_last_eq_none hfin hkey, hv]
        rfl
      others := by
        intro key w hw
        rw [hcomponent, hget, hleft, hright] at hw
        by_contra hnot
        rw [not_or, not_or] at hnot
        obtain ⟨hcomponents, hdefinitions, hgenerated⟩ := hnot
        rw [get?_last_eq_none hfin hgenerated, Entries.get?_eq_none_iff.mpr hcomponents,
          Entries.get?_eq_none_iff.mpr hdefinitions] at hw
        simp at hw
      generated := by
        intro name hname
        obtain ⟨hcomponents, hdefinitions⟩ := new_name hfin hname
        obtain ⟨w, hw⟩ := Option.isSome_iff_exists.mp (hfin.mem_order.mp hname)
        refine ⟨hcomponents, hdefinitions, w, hfin.definitions ▸ hw, ?_⟩
        rw [hcomponent, hget, hleft, hw]
        rfl
      outside := by
        intro p hfirst habove hbelow
        have hnil : p ≠ [] := by
          rintro rfl
          exact habove List.nil_prefix
        obtain ⟨first, rest, rfl⟩ := List.exists_cons_of_ne_nil hnil
        rw [Components.resolve?_convert_outside hconvert hfirst habove hbelow,
          resolve?_embedded hfin ?_ ?_, resolve?_mapRefs]
        · rfl
        · intro hprefix
          exact hfirst (congrArg some (List.cons_prefix_cons.mp hprefix).1)
        · intro hprefix
          exact hfirst (congrArg some (List.cons_prefix_cons.mp hprefix).1.symm)
      above := by
        intro p hp
        refine ⟨Components.resolve?_convert_above hconvert hp, ?_⟩
        rcases Components.prefix_path_cases hp with rfl | rfl | rfl
        · intro u hu
          rw [resolve?_nil, Option.some.injEq] at hu
          exact hu ▸ hobject
        · exact isObject_of_embedded hfin (by decide) (by decide) hconvertible.components
        · exact isObject_of_embedded hfin (by decide) (by decide) hconvertible.schemas
      gone := Components.gone_of_convert hconvert fun members => sorted_embedded hfin hordered }

/-- **Composing keeps what the template has.** If it succeeds, the components and the
definitions of the template are components under their own names, what else is a component was
generated under a name that the template does not have, and everything else is as it was; only
references have new texts. And whatever is embedded, moving the definitions fails at a name only
if the template itself holds two different things under it. -/
theorem build_keeps_template (hbase : c.base = some template) (hordered : template.Ordered) :
    (∀ composed, (c.build generator).outcome = .done composed →
      ∃ embedded, (c.embedding generator template).outcome = .done embedded ∧
        c.KeepsTemplate generator template composed embedded) ∧
    ∀ embedded name place, (c.embedding generator template).outcome = .done embedded →
      Components.convert embedded.document = .error (.nameCollision name place) →
      name ∉ embedded.definitions.order ∧
      ∃ v w, Entries.get? (nodeMembers template [Schema.definitionsKey]) name = some v ∧
        Entries.get? (nodeMembers template Components.path) name = some w ∧
        (Json.mapRefsAt (c.newText generator template) name w ==
          Json.mapRefsAt (c.newText generator template) name v) = false := by
  constructor
  · intro composed h
    obtain ⟨template', embedded, hbase', hobject, -, hrun, hconvert⟩ := build_done h
    obtain rfl : template = template' := Option.some.inj (hbase.symm.trans hbase')
    exact ⟨embedded, hrun, keepsTemplate hordered hobject hrun hconvert⟩
  · intro embedded name place hrun hconvert
    obtain ⟨existing, H, hfin⟩ := finished_of_embedding hrun
    obtain ⟨v, w, hv, hw, hdiffers⟩ :=
      Components.convert_collision hconvert (definitionsNodup_embedded hfin hordered)
    rw [get?_components hfin] at hw
    obtain ⟨old, hold, rfl⟩ := Option.map_eq_some_iff.mp hw
    have hname : name ∉ embedded.definitions.order := fun hmem =>
      (new_name hfin hmem).1 (Entries.mem_keys_of_get? hold)
    rw [get?_definitions hfin, get?_last_eq_none hfin hname, Option.map_none,
      Option.none_or] at hv
    obtain ⟨found, hfound, rfl⟩ := Option.map_eq_some_iff.mp hv
    exact ⟨hname, found, old, hfound, hold, hdiffers⟩

/-- A description with a component and a definition of its own, and with one placeholder. -/
def workshopTemplate : Json :=
  .object
    [("components", .object [("schemas", .object [("Car", .object [("type", .null)])])]),
      ("definitions", .object [("Wheel", .object [("type", .null)])]),
      ("paths", .object [("$ref", .string "car.json#/definitions/Wheel")])]

/-- The placeholder stands for a type that has the name of the component. -/
def workshop : Composition :=
  { empty with base := some workshopTemplate }.withSchema "car.json" "Car"

/-- That type has a definition with the name of the template's. -/
def workshopTypes : Generator :=
  Generator.ofSchemas
    [("Car", ⟨.object [("wheel", .object [("$ref", .string "#/definitions/Wheel")])],
      [("Wheel", .object [("type", .string "object")])]⟩)]

theorem ordered_workshopTemplate : workshopTemplate.Ordered := by
  simp only [workshopTemplate, List.forall_mem_cons, List.not_mem_nil, false_implies, implies_true,
    Json.ordered_object, Json.Ordered.string, Json.Ordered.null]
  decide +kernel

theorem build_keeps_template_workshop :
    ∃ composed embedded, (workshop.build workshopTypes).outcome = .done composed ∧
      workshop.KeepsTemplate workshopTypes workshopTemplate composed embedded ∧
      (workshop.embedding workshopTypes workshopTemplate).outcome = .done embedded ∧
      embedded.definitions.order = ["Car2", "Wheel2"] := by
  obtain ⟨composed, hbuild, -⟩ := Outcome.done_of_check (workshop.build workshopTypes).outcome
    (fun _ => true) (by decide +kernel)
  obtain ⟨found, hfound, hnames⟩ := Outcome.done_of_check
    (workshop.embedding workshopTypes workshopTemplate).outcome
    (fun embedded => embedded.definitions.order == ["Car2", "Wheel2"]) (by decide +kernel)
  have hbase : workshop.base = some workshopTemplate := rfl
  obtain ⟨embedded, hrun, hkeeps⟩ :=
    (build_keeps_template hbase ordered_workshopTemplate).1 composed hbuild
  obtain rfl : found = embedded := Outcome.done.inj (hfound.symm.trans hrun)
  exact ⟨composed, found, hbuild, hkeeps, hrun, by simpa using hnames⟩

end Composition

end SchemaBundle
