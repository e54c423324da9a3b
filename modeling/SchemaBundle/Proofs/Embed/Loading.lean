/-
Which documents are loaded, and in which order.

A document is asked for once, whatever becomes of the run: its name is reserved before
the loader is asked, and a document with a name is never asked for again.  That has to be
said of runs that fail as well, so it is proved for the context in which a computation
ends, be it with a result or with an error.  Contexts change in few places that matter to
such a property, those where names are given, and it is enough to look at these.

When a run succeeds, every reference has been followed, so that the documents are
all that the root demands and no more.  The references of a shared definition are
followed for the document that owns it only.  Nothing is missed, because the definition
means the same in both documents, and so its references name the same ones.
-/
import SchemaBundle.Proofs.Embed.Meaning

namespace SchemaBundle

variable {e : Embedder} {loader : Loader} {root : Json} {steps : Nat} {c c' : Context}

/-! ### Whatever the outcome -/

namespace Embedding

variable {α β : Type} {P : Context → Prop}

/-- The context in which a computation ends, with a result or with an error. -/
def final (x : Embedding α) (c : Context) : Context :=
  match x c with
  | .ok _ c' => c'
  | .error _ c' => c'

/-- A property of contexts that a computation keeps, whatever its outcome. -/
def Maintains (P : Context → Prop) (x : Embedding α) : Prop :=
  ∀ c, P c → P (x.final c)

theorem final_bind_ok {x : Embedding α} {f : α → Embedding β} {a : α} (h : x c = .ok a c') :
    (x >>= f).final c = (f a).final c' := by
  show (match EStateM.bind x f c with | .ok _ c' => c' | .error _ c' => c') = _
  unfold EStateM.bind
  rw [h]
  rfl

theorem final_bind_error {x : Embedding α} {f : α → Embedding β} {error : Error}
    (h : x c = .error error c') : (x >>= f).final c = c' := by
  show (match EStateM.bind x f c with | .ok _ c' => c' | .error _ c' => c') = _
  unfold EStateM.bind
  rw [h]

theorem final_modify_bind {g : Context → Context} {f : PUnit → Embedding β} :
    ((modify g : Embedding PUnit) >>= f).final c = (f ⟨⟩).final (g c) := rfl

theorem maintains_pure (a : α) : Maintains P (pure a : Embedding α) := fun _ hc => hc

theorem maintains_throw (error : Error) : Maintains P (throw error : Embedding α) :=
  fun _ hc => hc

theorem Maintains.bind {x : Embedding α} {f : α → Embedding β} (hx : Maintains P x)
    (hf : ∀ a, Maintains P (f a)) : Maintains P (x >>= f) := by
  intro c hc
  have hafter := hx c hc
  unfold final at hafter
  cases h : x c with
  | ok a c' =>
      rw [h] at hafter
      rw [final_bind_ok h]
      exact hf a c' hafter
  | error error c' =>
      rw [h] at hafter
      rw [final_bind_error h]
      exact hafter

theorem Maintains.map {x : Embedding α} {g : α → β} (hx : Maintains P x) :
    Maintains P (g <$> x) := by
  intro c hc
  have hafter := hx c hc
  unfold final at hafter ⊢
  show P (match EStateM.map g x c with | .ok _ c' => c' | .error _ c' => c')
  unfold EStateM.map
  cases h : x c with
  | ok a c' =>
      rw [h] at hafter
      exact hafter
  | error error c' =>
      rw [h] at hafter
      exact hafter

theorem maintains_get {f : Context → Embedding β} (hf : ∀ c, P c → P ((f c).final c)) :
    Maintains P (get >>= f) := fun c hc => hf c hc

theorem maintains_modify {f : Context → Context} (hf : ∀ c, P c → P (f c)) :
    Maintains P (modify f : Embedding PUnit) := fun c hc => hf c hc

end Embedding

open SchemaBundle.Embedding (Maintains final_bind_ok final_bind_error maintains_pure maintains_throw
  maintains_get maintains_modify)

namespace Embedder

/-- What a property of contexts has to be like for every run to keep it: the worklist and the
definitions do not matter to it, and it is kept where names are given, to a document, to a
definition, and to all definitions of a document together. -/
structure Preserves (e : Embedder) (P : Context → Prop) : Prop where
  contents : ∀ c worklist definitions, P c → P { c with worklist, definitions }
  document : ∀ identity c name c₁, P c → c.resource? identity = none →
    Embedding.reserveResource identity (e.naming identity) c = .ok name c₁ →
    P { c₁ with loaded := c₁.loaded ++ [identity] }
  definition : ∀ identity key content c name allocator, P c →
    c.allocator.allocate key identity = .ok (name, allocator) →
    P (({ c with allocator } : Context).offer key ⟨name, identity, content⟩)
  definitions : ∀ identity resource localNames c, P c → c.resource? identity = some resource →
    P { c with resources := Entries.insert identity { resource with localNames } c.resources }

namespace Preserves

variable {P : Context → Prop} (h : e.Preserves P)
include h

theorem hoistOne (identity : String) (shared : List (String × String)) (key : String)
    (content : Json) : Maintains P (Embedding.hoistOne identity shared key content) := by
  unfold Embedding.hoistOne
  cases Entries.get? shared key with
  | some name => exact maintains_pure name
  | none =>
      refine maintains_get fun c hc => ?_
      cases halloc : c.allocator.allocate key identity with
      | error error => exact hc
      | ok result =>
          exact h.contents _ _ _ (h.definition identity key content c _ _ hc halloc)

theorem hoistAll (identity : String) (shared : List (String × String))
    (definitions : List (String × Json)) :
    Maintains P (Embedding.hoistAll identity shared definitions) := by
  induction definitions with
  | nil => exact maintains_pure _
  | cons entry rest ih =>
      obtain ⟨key, content⟩ := entry
      unfold Embedding.hoistAll
      exact (h.hoistOne identity shared key content).bind fun name =>
        ih.bind fun names => maintains_pure _

theorem hoist (target : String → String → RefTarget) (identity : String)
    (definitions : List (String × Json)) :
    Maintains P (Embedding.hoist target identity definitions) := by
  unfold Embedding.hoist
  refine maintains_get fun c hc => ?_
  refine (h.hoistAll identity _ definitions).bind (fun names => ?_) c hc
  refine maintains_modify fun c hc => ?_
  cases hres : c.resource? identity with
  | none => exact hc
  | some resource => exact h.definitions identity resource names c hc hres

theorem ensureEmbedded (loader : Loader) (identity : String) :
    Maintains P (e.ensureEmbedded loader identity) := by
  unfold Embedder.ensureEmbedded
  refine maintains_get fun c hc => ?_
  split
  · exact hc
  · rename_i hunknown
    cases hreserve : Embedding.reserveResource identity (e.naming identity) c with
    | error error c₁ =>
        rw [final_bind_error hreserve, (Context.reserveResource_error hreserve).2]
        exact hc
    | ok name c₁ =>
        have hnamed := h.document identity c name c₁ hc
          (Option.not_isSome_iff_eq_none.mp hunknown) hreserve
        rw [final_bind_ok hreserve, Embedding.final_modify_bind]
        cases loader.fetch identity with
        | error error => exact hnamed
        | ok document =>
            have hstore : Maintains P (modify fun c : Context =>
                c.store identity name (e.mount.takeDefinitions document).2 : Embedding PUnit) :=
              maintains_modify fun c hc => h.contents c _ _ hc
            exact hstore.bind (fun _ => h.hoist e.refTarget identity _) _ hnamed

omit h in
theorem target (identity : String) (pointer : Pointer) :
    Maintains P (e.target identity pointer) := by
  unfold Embedder.target
  refine maintains_get fun c hc => ?_
  split <;> exact hc

theorem redirectRef (scope : Option String) (raw : String) :
    Maintains P (e.redirectRef loader scope raw) := by
  unfold Embedder.redirectRef
  cases e.readLink raw with
  | error error => exact maintains_throw error
  | ok link =>
      cases link with
      | keep => exact maintains_pure raw
      | inside pointer =>
          cases scope with
          | none => exact maintains_pure raw
          | some identity => exact target identity pointer
      | outside url pointer =>
          exact (h.ensureEmbedded loader _).bind fun _ => target _ pointer

theorem redirect (scope : Option String) (v : Json) :
    Maintains P (e.redirect loader scope v) := by
  induction v with
  | null | bool _ | number _ | string _ =>
      unfold Embedder.redirect
      exact maintains_pure _
  | array items ih =>
      have hitems : Maintains P (e.redirectItems loader scope items) := by
        induction items with
        | nil => exact maintains_pure _
        | cons item rest ihrest =>
            unfold redirectItems
            exact (ih item List.mem_cons_self).bind fun _ =>
              (ihrest fun item h => ih item (List.mem_cons_of_mem _ h)).bind fun _ =>
                maintains_pure _
      unfold Embedder.redirect
      exact hitems.bind fun _ => maintains_pure _
  | object members ih =>
      have hmembers : Maintains P (e.redirectMembers loader scope members) := by
        induction members with
        | nil => exact maintains_pure _
        | cons entry rest ihrest =>
            have hrest := ihrest fun entry h => ih entry (List.mem_cons_of_mem _ h)
            unfold redirectMembers
            cases refText? entry.1 entry.2 with
            | some raw =>
                exact (h.redirectRef scope raw).map.bind fun _ =>
                  hrest.bind fun _ => maintains_pure _
            | none =>
                exact (ih entry List.mem_cons_self).bind fun _ =>
                  hrest.bind fun _ => maintains_pure _
      unfold Embedder.redirect
      exact hmembers.bind fun _ => maintains_pure _

theorem step : Maintains P (e.step loader) := by
  unfold Embedder.step
  refine maintains_get fun c hc => ?_
  cases c.worklist with
  | nil => exact hc
  | cons pending rest =>
      have htaken : P { c with worklist := rest } := h.contents c rest c.definitions hc
      refine ((h.redirect (some pending.identity) _).bind fun w => ?_) _ htaken
      exact (maintains_modify fun c hc => h.contents c c.worklist _ hc).bind fun _ =>
        maintains_pure true

theorem drain (steps : Nat) : Maintains P (e.drain loader steps) := by
  induction steps with
  | zero =>
      unfold Embedder.drain
      exact maintains_get fun c hc => hc
  | succ steps ih =>
      unfold Embedder.drain
      refine h.step.bind fun more => ?_
      cases more with
      | true => exact ih
      | false => exact maintains_pure true

theorem traverse (loader : Loader) (steps : Nat) (root : Json) :
    Maintains P (e.traverse loader steps root) := by
  unfold Embedder.traverse
  refine (h.redirect none root).bind fun document => ?_
  exact (h.drain steps).bind fun through => maintains_pure _

/-- **What is kept where names are given holds in the end**, whatever becomes of the run. -/
theorem endContext (loader : Loader) (steps : Nat) (root : Json)
    (hstart : ∀ kept, P (Context.start e.maxSuffix kept)) :
    P (e.endContext loader steps root) := by
  unfold Embedder.endContext
  cases e.existingNames root with
  | error error => exact hstart _
  | ok existing =>
      have hend := h.traverse loader steps root _ (hstart (e.reserved ++ existing))
      unfold Embedding.final at hend
      cases htraverse : e.traverse loader steps root
          (Context.start e.maxSuffix (e.reserved ++ existing)) with
      | ok result c => simpa only [htraverse] using hend
      | error error c => simpa only [htraverse] using hend

end Preserves

/-- A run reports what was loaded up to its end, if it came to load anything. -/
theorem loaded_run (e : Embedder) (loader : Loader) (steps : Nat) (root : Json) :
    (e.run loader steps root).loaded = [] ∨
      (e.run loader steps root).loaded = (e.endContext loader steps root).loaded := by
  unfold run endContext
  split
  · exact Or.inl rfl
  · cases e.existingNames root with
    | error error => exact Or.inl rfl
    | ok existing =>
        refine Or.inr ?_
        simp only
        split
        all_goals
          rename_i htraverse
          simp only [htraverse]

end Embedder

/-! ### Every document once -/

/-- No document was asked for twice, and none that has no name. -/
structure Context.Logged (c : Context) : Prop where
  nodup : c.loaded.Nodup
  named : ∀ i ∈ c.loaded, (c.resource? i).isSome

open Context (Logged)

theorem Context.Logged.congr (h : c.Logged) (hloaded : c'.loaded = c.loaded)
    (hresources : c'.resources = c.resources) : c'.Logged where
  nodup := hloaded ▸ h.nodup
  named := by
    intro i hi
    unfold Context.resource?
    rw [hresources]
    exact h.named i (hloaded ▸ hi)

namespace Embedder

/-- The name comes before the question: so a document is never asked for again. -/
theorem preserves_logged (e : Embedder) : e.Preserves Logged where
  contents := fun c worklist definitions hc => hc.congr rfl rfl
  definition := fun identity key content c name allocator hc _ => hc.congr rfl rfl
  document := by
    intro identity c name c₁ hc hunknown hreserve
    obtain ⟨-, -, hresources, -, -, -, hloaded⟩ := Context.reserveResource_ok hreserve
    refine ⟨?_, fun i hi => ?_⟩
    · rw [hloaded, List.nodup_append]
      refine ⟨hc.nodup, List.nodup_singleton _, fun i hi j hj heq => ?_⟩
      rw [heq, List.mem_singleton.mp hj] at hi
      have hknown := hc.named identity hi
      rw [hunknown] at hknown
      simp at hknown
    · show (Entries.get? c₁.resources i).isSome = true
      rw [hresources, Entries.get?_insert]
      rw [hloaded, List.mem_append, List.mem_singleton] at hi
      by_cases heq : identity = i
      · rw [if_pos heq]
        rfl
      · rw [if_neg heq]
        exact hc.named i (hi.resolve_right (Ne.symm heq))
  definitions := by
    intro identity resource localNames c hc hres
    refine ⟨hc.nodup, fun i hi => ?_⟩
    show (Entries.get? (Entries.insert identity _ c.resources) i).isSome = true
    rw [Entries.get?_insert]
    split
    · rfl
    · exact hc.named i hi

/-- **No document is asked for twice**, whether the run succeeds, fails or is cut short. -/
theorem loaded_nodup (e : Embedder) (loader : Loader) (steps : Nat) (root : Json) :
    (e.run loader steps root).loaded.Nodup := by
  have hend : Logged (e.endContext loader steps root) :=
    e.preserves_logged.endContext loader steps root fun kept =>
      ⟨List.nodup_nil, fun i hi => by simp [Context.start] at hi⟩
  rcases e.loaded_run loader steps root with hloaded | hloaded
  · rw [hloaded]
    exact List.nodup_nil
  · rw [hloaded]
    exact hend.nodup

/-! ### What a run loads -/

variable {existing : List String} {H : List Record} {out : Embedded}

namespace Finished

variable (hfin : e.Finished loader root existing H c out)
include hfin

theorem mem_loaded {i : String} : i ∈ c.loaded ↔ ∃ r ∈ H, r.identity = i := by
  rw [hfin.holds.keeps.loaded, List.mem_map]

theorem mem_loaded_of_known {i : String} (h : (c.resource? i).isSome) : i ∈ c.loaded := by
  rw [hfin.holds.keeps.loaded]
  exact hfin.holds.keeps.isSome_resource?.mp h

/-- The record of a loaded document. -/
theorem exists_record {i : String} {document : Json} (hi : i ∈ c.loaded)
    (hdocument : loader i = .ok document) :
    ∃ r ∈ H, r.identity = i ∧ e.mount.takeDefinitions document = (r.own, r.body) := by
  obtain ⟨r, hr, rfl⟩ := hfin.mem_loaded.mp hi
  obtain ⟨found, hfetch, htake⟩ := hfin.holds.documents r hr
  have heq : found = document :=
    Except.ok.inj ((Loader.of_fetch hfetch).symm.trans hdocument)
  exact ⟨r, hr, rfl, heq ▸ htake⟩

/-- **What is loaded is what is demanded.** -/
theorem mem_loaded_iff (hs : e.Sound H) {i : String} :
    i ∈ c.loaded ↔ e.Demanded loader root i := by
  constructor
  · intro hi
    obtain ⟨r, hr, rfl⟩ := hfin.mem_loaded.mp hi
    exact hfin.demanded r hr
  · intro hi
    induction hi with
    | root hraw hnames =>
        obtain ⟨w, hdone, -⟩ := hfin.root
        obtain ⟨-, -, -, hknown⟩ := (hdone.settled _ hraw).leads (Or.inl ⟨_, hnames, rfl⟩)
        exact hfin.mem_loaded_of_known hknown
    | body _ hdocument hraw hnames ih =>
        obtain ⟨r, hr, rfl, htake⟩ := hfin.exists_record ih hdocument
        rw [htake] at hraw
        obtain ⟨w, -, hdone⟩ := hfin.done_body hr
        obtain ⟨-, -, -, hknown⟩ := (hdone.settled _ hraw).leads (Or.inl ⟨_, hnames, rfl⟩)
        exact hfin.mem_loaded_of_known hknown
    | own _ hdocument hcontent hraw hnames ih =>
        obtain ⟨r, hr, rfl, htake⟩ := hfin.exists_record ih hdocument
        rw [htake] at hcontent
        obtain ⟨d, hd, heq⟩ := List.mem_map.mp hcontent
        obtain ⟨rfl, rfl⟩ := Prod.mk.inj heq
        -- also when the definition is shared, and so never redirected for this document
        obtain ⟨-, hsettled⟩ := hfin.done_own hs hr hd
        obtain ⟨-, -, -, hknown⟩ := (hsettled _ hraw).leads (Or.inl ⟨_, hnames, rfl⟩)
        exact hfin.mem_loaded_of_known hknown

theorem mem_names_iff {i : String} : i ∈ Entries.keys out.names ↔ i ∈ c.loaded := by
  rw [hfin.names, Context.assignedNames, Entries.keys_mapValues, ← Entries.isSome_get?_iff,
    hfin.holds.keeps.loaded]
  exact hfin.holds.keeps.isSome_resource?

/-- A name of a definition that was not given to its document was given to another. -/
theorem shared_name (hs : e.Sound H) {r : Record} (hr : r ∈ H) {d : LocalDefinition}
    (hd : d ∈ r.locals) (hnot : d.name ∉ c.given r.identity) :
    ∃ j ∈ c.loaded, j ≠ r.identity ∧ d.name ∈ c.given j := by
  have hk := hfin.holds.keeps
  obtain ⟨s, hs', δ, hδ, hfresh, -, hname, -⟩ := hs.origin r hr d hd
  have hgiven : d.name ∈ c.given s.identity := by
    rw [hk.given_eq hs', ← hname]
    exact List.mem_map_of_mem (Record.mem_pieces.mpr (Or.inr ⟨δ, hδ, hfresh, rfl⟩))
  refine ⟨s.identity, hfin.mem_loaded.mpr ⟨s, hs', rfl⟩, fun heq => ?_, hgiven⟩
  rw [heq] at hgiven
  exact hnot hgiven

end Finished

/-- The names that a loaded document has: one for itself, and one for each definition of
its own, in the order of their keys. What was not given to it was given to another. -/
structure NamedInOrder (e : Embedder) (loader : Loader) (c : Context) (out : Embedded)
    (i : String) (document : Json) (resource : Resource) : Prop where
  answer : loader i = .ok document
  known : c.resource? i = some resource
  name : Entries.get? out.names i = some resource.name
  keys : Entries.keys resource.localNames = Entries.keys (e.mount.takeDefinitions document).1
  sorted : Entries.Sorted (e.mount.takeDefinitions document).1
  shared : ∀ entry ∈ resource.localNames, entry.2 ∉ c.given i →
    ∃ j ∈ c.loaded, j ≠ i ∧ entry.2 ∈ c.given j

theorem Finished.namedInOrder (hfin : e.Finished loader root existing H c out)
    (hl : loader.Ordered) {i : String} (hi : i ∈ c.loaded) :
    ∃ document resource, e.NamedInOrder loader c out i document resource := by
  obtain ⟨r, hr, rfl⟩ := hfin.mem_loaded.mp hi
  obtain ⟨document, hfetch, htake⟩ := hfin.holds.documents r hr
  have hdocument := Loader.of_fetch hfetch
  refine ⟨document, r.resource, hdocument, hfin.holds.keeps.resource_of_mem hr,
    hfin.get?_names.mpr ⟨r, hr, rfl, rfl⟩, ?_,
    MountPath.takeDefinitions_sorted (hl _ _ hdocument), ?_⟩
  · rw [htake, Record.keys_localNames, Record.keys_own]
  · rintro entry hentry hnot
    obtain ⟨d, hd, rfl⟩ := List.mem_map.mp hentry
    exact hfin.shared_name (hfin.holds.sound hl) hr hd hnot

/-- **Exactly what is demanded is loaded, each document once.** No run asks for a document
twice. One that succeeds loads the documents that have names, which are those that the
root demands, and stores for one document after the other the document itself and those
of its own definitions that it does not share. -/
theorem run_loads_demanded (e : Embedder) (loader : Loader) (steps : Nat) (root : Json) :
    (e.run loader steps root).loaded.Nodup ∧
      ∀ out, loader.Ordered → (e.run loader steps root).outcome = .done out →
        (∀ i, i ∈ (e.run loader steps root).loaded ↔ i ∈ Entries.keys out.names) ∧
        (∀ i, i ∈ (e.run loader steps root).loaded ↔ e.Demanded loader root i) ∧
        out.definitions.order =
          (e.run loader steps root).loaded.flatMap (e.endContext loader steps root).given ∧
        out.definitions.order.Nodup ∧
        ∀ i ∈ (e.run loader steps root).loaded, ∃ document resource,
          e.NamedInOrder loader (e.endContext loader steps root) out i document resource := by
  refine ⟨e.loaded_nodup loader steps root, fun out hl h => ?_⟩
  obtain ⟨hloaded, existing, H, hfin⟩ := finished_of_run h
  rw [hloaded]
  refine ⟨fun i => hfin.mem_names_iff.symm, fun i => hfin.mem_loaded_iff (hfin.holds.sound hl),
    hfin.order_eq_given, ?_, fun i hi => hfin.namedInOrder hl hi⟩
  rw [hfin.order_eq_given]
  exact hfin.given_nodup

theorem run_loads_demanded_twins :
    ∃ out, (standard.runOn twins twinsRoot).outcome = .done out ∧ out.definitions.order.Nodup ∧
      ∀ i, i ∈ ["a.json", "b.json"] ↔
        standard.Demanded (Loader.ofDocuments twins) twinsRoot i := by
  have hloaded : (standard.runOn twins twinsRoot).loaded = ["a.json", "b.json"] := by
    decide +kernel
  obtain ⟨out, h⟩ := twins_done
  obtain ⟨-, hsuccess⟩ := run_loads_demanded standard (Loader.ofDocuments twins)
    (standard.stepBound twins) twinsRoot
  obtain ⟨-, hdemanded, -, hnodup, -⟩ := hsuccess out twins_ordered h
  refine ⟨out, h, hnodup, fun i => ?_⟩
  rw [← hloaded]
  exact hdemanded i

end Embedder

end SchemaBundle
