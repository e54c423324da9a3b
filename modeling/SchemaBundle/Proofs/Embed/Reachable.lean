/-
Sharing in every context that a run can reach.

A run changes its context in few ways: a document gets a name, it is stored, its
definitions are named, and a stored piece is taken off the worklist and put back.  The
contexts that arise from these steps, in whatever order and for whatever documents, are
more than those of actual runs, and what is said here holds in all of them.

Two documents have one name for a key exactly if their definitions under it mean the
same.  While the definitions of a document are named, the search settles on at most one
candidate for a key, so that the order of the candidates does not matter and two choices
never conflict.
-/
import SchemaBundle.Proofs.Embed.Run

namespace SchemaBundle

open Sharing (settle resolve Unambiguous firstChoices conflict?)
open Record (AlikeAt)

variable {e : Embedder} {loader : Loader} {root : Json} {kept : List String} {H : List Record}
  {scope : Option String} {c c₀ c' : Context} {done waiting : List Piece}

/-- What a run is doing with a context. -/
inductive Phase where
  /-- It goes on to the next reference. -/
  | quiet
  /-- It has given a name to a document, and asks for it. -/
  | loading (identity name : String)
  /-- It has stored a document, and names its own definitions. -/
  | hoisting (identity : String) (definitions : List (String × Json))

/-- The document that is not embedded yet. -/
def Phase.current? : Phase → Option String
  | .quiet => none
  | .loading identity _ => some identity
  | .hoisting identity _ => some identity

namespace Embedder

/-- A document's own definitions, in key order; a document that cannot be loaded has
none. -/
def ownDefinitions (e : Embedder) (loader : Loader) (identity : String) : List (String × Json) :=
  match loader identity with
  | .ok document => (e.mount.takeDefinitions document).1
  | .error _ => []

/-- The contexts that embedding a root can reach. -/
inductive Reachable (e : Embedder) (loader : Loader) (root : Json) : Phase → Context → Prop
  | start {existing : List String} (hexisting : e.existingNames root = .ok existing) :
      Reachable e loader root .quiet (Context.start e.maxSuffix (e.reserved ++ existing))
  | reserve {c c₁ : Context} {i name : String} (hc : Reachable e loader root .quiet c)
      (hunknown : c.resource? i = none)
      (hreserve : Embedding.reserveResource i (e.naming i) c = .ok name c₁) :
      Reachable e loader root (.loading i name) { c₁ with loaded := c₁.loaded ++ [i] }
  | store {c : Context} {i name : String} {document : Json}
      (hc : Reachable e loader root (.loading i name) c)
      (hfetch : loader.fetch i = .ok document) :
      Reachable e loader root (.hoisting i (e.mount.takeDefinitions document).1)
        (c.store i name (e.mount.takeDefinitions document).2)
  | hoist {c c' : Context} {i : String} {definitions : List (String × Json)}
      (hc : Reachable e loader root (.hoisting i definitions) c)
      (hhoist : Embedding.hoist e.refTarget i definitions c = .ok () c') :
      Reachable e loader root .quiet c'
  | take {c : Context} {pending : Pending} {rest : List Pending}
      (hc : Reachable e loader root .quiet c) (hwork : c.worklist = pending :: rest) :
      Reachable e loader root .quiet { c with worklist := rest }
  | complete {c : Context} {name : String} (hc : Reachable e loader root .quiet c)
      (hname : c.definitions.contains name = true) (redirected : Json) :
      Reachable e loader root .quiet (c.complete name redirected)

/-! ### What is known of them -/

/-- How a context comes from the last quiet one, `c₀`. -/
inductive Arose (e : Embedder) (loader : Loader) (c₀ : Context) : Phase → Context → Prop
  | quiet : Arose e loader c₀ .quiet c₀
  | loading {c₁ : Context} {i name : String} (hunknown : c₀.resource? i = none)
      (hreserve : Embedding.reserveResource i (e.naming i) c₀ = .ok name c₁) :
      Arose e loader c₀ (.loading i name) { c₁ with loaded := c₁.loaded ++ [i] }
  | hoisting {c₁ : Context} {i name : String} {document : Json}
      (hunknown : c₀.resource? i = none)
      (hreserve : Embedding.reserveResource i (e.naming i) c₀ = .ok name c₁)
      (hfetch : loader.fetch i = .ok document) :
      Arose e loader c₀ (.hoisting i (e.mount.takeDefinitions document).1)
        (c₁.opened i name (e.mount.takeDefinitions document).2)

/-- Only the document that is not embedded yet makes a difference. -/
theorem Arose.resource?_eq {phase : Phase} (h : e.Arose loader c₀ phase c) {i : String}
    (hi : phase.current? ≠ some i) : c.resource? i = c₀.resource? i := by
  cases h with
  | quiet => rfl
  | @loading c₁ j name _ hreserve =>
      show c₁.resource? i = _
      exact Context.resource?_reserve_ne (fun heq => hi (congrArg some heq.symm)) hreserve
  | hoisting _ hreserve _ =>
      exact Context.resource?_opened_ne (fun heq => hi (congrArg some heq.symm)) hreserve

/-- While definitions are being named, their keys are distinct, and what is on offer and
viable is what it was before their document was met. -/
theorem Arose.hoisting_eq {i : String} {definitions : List (String × Json)}
    (hl : loader.Ordered) (hk : c₀.Keeps kept H)
    (h : e.Arose loader c₀ (.hoisting i definitions) c) :
    (Entries.keys definitions).Nodup ∧ (∀ key, c.hoistedAt key = c₀.hoistedAt key) ∧
      c.viable e.refTarget i definitions = c₀.viable e.refTarget i definitions := by
  cases h with
  | @hoisting c₁ _ name document hunknown hreserve hfetch =>
      obtain ⟨-, -, -, hhoisted, -⟩ := Context.reserveResource_ok hreserve
      have hsorted : Entries.Sorted (e.mount.takeDefinitions document).1 :=
        MountPath.takeDefinitions_sorted (hl _ _ (Loader.of_fetch hfetch))
      refine ⟨hsorted.keys_nodup, fun key => ?_, Context.viable_opened hk hunknown hreserve⟩
      show (Entries.get? c₁.hoisted key).getD [] = _
      rw [hhoisted]
      rfl

namespace Reachable

/-- **Every context is made of records of documents**, as it was when it was quiet last. -/
theorem holds {phase : Phase} (h : e.Reachable loader root phase c) :
    ∃ kept H c₀, e.Holds loader kept H c₀ ∧ e.Arose loader c₀ phase c := by
  induction h with
  | start _ => exact ⟨_, [], _, e.holds_start loader _ _, .quiet⟩
  | reserve _ hunknown hreserve ih =>
      obtain ⟨kept, H, c₀, hholds, harose⟩ := ih
      cases harose with
      | quiet => exact ⟨kept, H, _, hholds, .loading hunknown hreserve⟩
  | store _ hfetch ih =>
      obtain ⟨kept, H, c₀, hholds, harose⟩ := ih
      cases harose with
      | loading hunknown hreserve =>
          exact ⟨kept, H, c₀, hholds, .hoisting hunknown hreserve hfetch⟩
  | hoist _ hhoist ih =>
      obtain ⟨kept, H, c₀, hholds, harose⟩ := ih
      cases harose with
      | hoisting hunknown hreserve hfetch =>
          obtain ⟨r, rfl, hown, hbody, hadm⟩ :=
            Context.hoist_ok hholds.keeps hunknown hreserve hhoist
          exact ⟨kept, H ++ [r], _, hholds.extend hfetch (by rw [hown, hbody]) hadm, .quiet⟩
  | take _ _ ih =>
      obtain ⟨kept, H, c₀, hholds, harose⟩ := ih
      cases harose with
      | quiet => exact ⟨kept, H, _, hholds.take _, .quiet⟩
  | complete _ hname redirected ih =>
      obtain ⟨kept, H, c₀, hholds, harose⟩ := ih
      cases harose with
      | quiet => exact ⟨kept, H, _, hholds.complete redirected hname, .quiet⟩

/-! ### Runs stay within them -/

theorem embed {identity : String} (hc : e.Reachable loader root .quiet c)
    (h : e.ensureEmbedded loader identity c = .ok () c') :
    e.Reachable loader root .quiet c' := by
  rcases ensureEmbedded_cases h with
    ⟨rfl, -⟩ | ⟨name, c₁, document, hnone, hreserve, hfetch, hhoist⟩
  · exact hc
  · exact ((hc.reserve hnone hreserve).store hfetch).hoist hhoist

/-- What is stored stays stored. -/
theorem contains_embed {identity name : String} (hc : e.Reachable loader root .quiet c)
    (h : e.ensureEmbedded loader identity c = .ok () c')
    (hname : c.definitions.contains name = true) : c'.definitions.contains name = true := by
  obtain ⟨kept, H, c₀, hholds, harose⟩ := hc.holds
  cases harose with
  | quiet =>
      rcases ensureEmbedded_ok hholds.keeps h with ⟨rfl, -⟩ | ⟨r, document, -, -, -, hadm⟩
      · exact hname
      · refine (hadm.keeps.stored.contains name).mpr ?_
        rw [List.flatMap_append, List.map_append]
        exact List.mem_append_left _ ((hholds.keeps.stored.contains name).mp hname)

theorem redirect {v w : Json} (hc : e.Reachable loader root .quiet c)
    (h : e.redirect loader scope v c = .ok w c') :
    e.Reachable loader root .quiet c' ∧
      ∀ name, c.definitions.contains name = true → c'.definitions.contains name = true := by
  obtain ⟨texts, hfollows, -⟩ := redirect_follows h
  refine hfollows.preserves (P := fun c₁ => e.Reachable loader root .quiet c₁ ∧
    ∀ name, c.definitions.contains name = true → c₁.definitions.contains name = true)
    ?_ ⟨hc, fun _ hname => hname⟩
  rintro raw - url pointer - c₁ c₂ ⟨hc₁, hkeep⟩ hembed
  exact ⟨hc₁.embed hembed, fun name hname => hc₁.contains_embed hembed (hkeep name hname)⟩

theorem step {more : Bool} (hc : e.Reachable loader root .quiet c)
    (hp : e.Progress loader root kept H done [] waiting c)
    (h : e.step loader c = .ok more c') : e.Reachable loader root .quiet c' := by
  rcases step_ok h with ⟨-, -, rfl⟩ | ⟨pending, rest, w, c₂, hwork, -, hredirect, rfl⟩
  · exact hc
  · obtain ⟨hc₂, hkeep⟩ := (hc.take hwork).redirect hredirect
    refine hc₂.complete (hkeep _ ?_) w
    rw [hp.worklist] at hwork
    obtain ⟨p, waiting', rfl, rfl, rfl⟩ := List.map_eq_cons_iff.mp hwork
    refine (hp.holds.keeps.stored.contains _).mpr ?_
    rw [hp.pieces]
    simp [Piece.pending]

theorem drain {steps : Nat} {through : Bool} (hc : e.Reachable loader root .quiet c)
    (hp : e.Progress loader root kept H done [] waiting c)
    (h : e.drain loader steps c = .ok through c') : e.Reachable loader root .quiet c' := by
  induction steps generalizing H done waiting c with
  | zero =>
      unfold Embedder.drain at h
      simp only [Embedding.bind_eq_ok, Embedding.get_eq_ok, Embedding.pure_eq_ok] at h
      obtain ⟨a, c₁, ⟨rfl, rfl⟩, -, rfl⟩ := h
      exact hc
  | succ steps ih =>
      unfold Embedder.drain at h
      obtain ⟨more, c₁, hstep, hrest⟩ := Embedding.bind_eq_ok.mp h
      have hc₁ := hc.step hp hstep
      rcases hp.step hstep with ⟨-, rfl, -⟩ | ⟨p, rest, H', -, rfl, hp₁⟩
      · rw [if_neg Bool.false_ne_true] at hrest
        obtain ⟨-, rfl⟩ := Embedding.pure_eq_ok.mp hrest
        exact hc₁
      · rw [if_pos rfl] at hrest
        exact ih hc₁ hp₁ hrest

/-- **Every run is in a reachable context**, however many steps it has taken. -/
theorem traverse {existing : List String} {steps : Nat} {result : Option Json}
    (hexisting : e.existingNames root = .ok existing)
    (h : e.traverse loader steps root (Context.start e.maxSuffix (e.reserved ++ existing)) =
      .ok result c') : e.Reachable loader root .quiet c' := by
  unfold Embedder.traverse at h
  simp only [Embedding.bind_eq_ok, Embedding.pure_eq_ok] at h
  obtain ⟨w, c₁, hredirect, through, c₂, hdrain, -, rfl⟩ := h
  obtain ⟨H₁, h₁, -⟩ := (e.progress_start loader root existing).redirect
    (fun raw hraw url hnames => Demanded.root hraw hnames) hredirect
  exact ((Reachable.start hexisting).redirect hredirect).1.drain h₁ hdrain

theorem of_run {steps : Nat} {out : Embedded}
    (h : (e.run loader steps root).outcome = .done out) :
    e.Reachable loader root .quiet (e.endContext loader steps root) := by
  obtain ⟨existing, w, hexisting, htraverse, -, -⟩ := run_done h
  exact traverse hexisting htraverse

end Reachable

/-! ### What is shared in them -/

theorem ownDefinitions_eq {r : Record} (h : e.Holds loader kept H c) (hr : r ∈ H) :
    e.ownDefinitions loader r.identity = r.own := by
  obtain ⟨document, hfetch, htake⟩ := h.documents r hr
  unfold ownDefinitions
  rw [Loader.of_fetch hfetch]
  show (e.mount.takeDefinitions document).1 = r.own
  rw [htake]

/-- Two documents have one name for a key just when they mean the same by it. -/
theorem Holds.one_name_iff (h : e.Holds loader kept H c) (hs : e.Sound H) {r s : Record}
    {key : String} (hr : r ∈ H) (hs' : s ∈ H) (hne : r ≠ s)
    (hkey : key ∈ Entries.keys r.own) (hkey' : key ∈ Entries.keys s.own) :
    (∃ name, Entries.get? r.resource.localNames key = some name ∧
      Entries.get? s.resource.localNames key = some name) ↔ AlikeAt e r s key := by
  rw [Record.keys_own] at hkey hkey'
  obtain ⟨d, hd, rfl⟩ := List.mem_map.mp hkey
  obtain ⟨δ, hδ, hδkey⟩ := List.mem_map.mp hkey'
  have hleft := Record.get?_localNames (hs.distinct r hr) hd
  have hright := Record.get?_localNames (hs.distinct s hs') hδ
  rw [hδkey] at hright
  rw [← hs.name_eq_iff h.keeps hr hs' hne hd hδ hδkey.symm, hleft, hright]
  simp [eq_comm]

/-- Definitions are shared exactly where they mean the same, and the search for what can
be shared has no choice to make. -/
structure SharesExactly (e : Embedder) (loader : Loader) (phase : Phase) (c : Context) :
    Prop where
  /-- An embedded document has a name for each definition of its own. -/
  named : ∀ i resource, phase.current? ≠ some i → c.resource? i = some resource →
    Entries.keys resource.localNames = Entries.keys (e.ownDefinitions loader i)
  /-- Two embedded documents have one name for a key exactly if there is a set of keys,
  this one among them, whose definitions bear each other out. -/
  same : ∀ i j here there key, i ≠ j → phase.current? ≠ some i → phase.current? ≠ some j →
    c.resource? i = some here → c.resource? j = some there →
    key ∈ Entries.keys (e.ownDefinitions loader i) →
    key ∈ Entries.keys (e.ownDefinitions loader j) →
    ((∃ name, Entries.get? here.localNames key = some name ∧
        Entries.get? there.localNames key = some name) ↔
      ∃ S : Set String, key ∈ S ∧
        e.Alike (e.ownDefinitions loader i) (e.ownDefinitions loader j) i j S)
  /-- When the search settles, no key has two candidates. -/
  unambiguous : ∀ i definitions, phase = .hoisting i definitions →
    Unambiguous (settle (c.viable e.refTarget i definitions))
  /-- So first choices never conflict, and nothing is dropped for a conflict. -/
  agreed : ∀ i definitions, phase = .hoisting i definitions →
    conflict? (firstChoices (settle (c.viable e.refTarget i definitions)))
      (settle (c.viable e.refTarget i definitions)) = none
  /-- It does not matter in which order the candidates are listed. -/
  anyOrder : ∀ i definitions, phase = .hoisting i definitions →
    ∀ c' : Context, c'.resources = c.resources →
      (∀ key, (c'.hoistedAt key).Perm (c.hoistedAt key)) →
      ∀ key, Entries.get? (resolve (c'.viable e.refTarget i definitions)) key =
        Entries.get? (resolve (c.viable e.refTarget i definitions)) key

/-- Candidates depend on what is offered, and not on the order of the offers. -/
private theorem has_viable_congr {i : String} {definitions : List (String × Json)}
    (hres : c'.resources = c.resources)
    (hperm : ∀ key, (c'.hoistedAt key).Perm (c.hoistedAt key)) (key : String)
    (cand : Sharing.Candidate) :
    Sharing.Has (c'.viable e.refTarget i definitions) key cand ↔
      Sharing.Has (c.viable e.refTarget i definitions) key cand := by
  simp only [has_viable, mem_shareCandidates, (hperm _).mem_iff]
  have hresource : ∀ owner, c'.resource? owner = c.resource? owner := fun owner => by
    unfold Context.resource?
    rw [hres]
  simp only [hresource]

/-- Where no key can share two things, the order of the offers makes no difference. -/
private theorem get?_resolve_perm {i : String} {definitions : List (String × Json)}
    (hnd : (Entries.keys definitions).Nodup) (hres : c'.resources = c.resources)
    (hperm : ∀ key, (c'.hoistedAt key).Perm (c.hoistedAt key))
    (hnames : ∀ key, ((c.hoistedAt key).map (·.name)).Nodup)
    (hone : ∀ key a b, Sharing.Has (settle (c.viable e.refTarget i definitions)) key a →
      Sharing.Has (settle (c.viable e.refTarget i definitions)) key b → a.name = b.name)
    (key : String) :
    Entries.get? (resolve (c'.viable e.refTarget i definitions)) key =
      Entries.get? (resolve (c.viable e.refTarget i definitions)) key := by
  have hhas : ∀ key cand,
      Sharing.Has (settle (c'.viable e.refTarget i definitions)) key cand ↔
        Sharing.Has (settle (c.viable e.refTarget i definitions)) key cand :=
    fun _ _ => Sharing.has_settle_congr (has_viable_congr hres hperm)
  have hun : Unambiguous (settle (c.viable e.refTarget i definitions)) :=
    Sharing.unambiguous_of_names (fun _ _ hcs => settled_names_nodup hnames hcs) hone
  have hun' : Unambiguous (settle (c'.viable e.refTarget i definitions)) := by
    refine Sharing.unambiguous_of_names (fun k cs hcs => ?_) fun k a b ha hb => ?_
    · exact settled_names_nodup (fun k => ((hperm k).map _).nodup_iff.mpr (hnames k)) hcs
    · rw [hhas] at ha hb
      exact hone k a b ha hb
  refine Option.ext fun name => ?_
  rw [Sharing.get?_resolve (keys_viable_nodup hnd) hun',
    Sharing.get?_resolve (keys_viable_nodup hnd) hun]
  exact exists_congr fun cand => and_congr_left fun _ => hhas key cand

/-- **Definitions are shared exactly when they mean the same**, in every context that a
run can reach. -/
theorem shares_exactly {phase : Phase} (hl : loader.Ordered)
    (hc : e.Reachable loader root phase c) : e.SharesExactly loader phase c := by
  obtain ⟨kept, H, c₀, hholds, harose⟩ := hc.holds
  have hk := hholds.keeps
  have hs := hholds.sound hl
  have hrecord : ∀ {i resource}, phase.current? ≠ some i → c.resource? i = some resource →
      ∃ r ∈ H, r.identity = i ∧ r.resource = resource := by
    intro i resource hi hres
    rw [harose.resource?_eq hi] at hres
    exact (hk.resources i resource).mp hres
  refine ⟨?_, ?_, ?_, ?_, ?_⟩
  · intro i resource hi hres
    obtain ⟨r, hr, rfl, rfl⟩ := hrecord hi hres
    rw [ownDefinitions_eq hholds hr, Record.keys_localNames, Record.keys_own]
  · intro i j here there key hne hi hj hhere hthere hkey hkey'
    obtain ⟨r, hr, rfl, rfl⟩ := hrecord hi hhere
    obtain ⟨s, hs', rfl, rfl⟩ := hrecord hj hthere
    rw [ownDefinitions_eq hholds hr] at hkey ⊢
    rw [ownDefinitions_eq hholds hs'] at hkey' ⊢
    exact hholds.one_name_iff hs hr hs' (fun heq => hne (congrArg _ heq)) hkey hkey'
  · rintro i definitions rfl
    obtain ⟨hnd, -, hviable⟩ := harose.hoisting_eq hl hk
    rw [hviable]
    exact unambiguous_settle hk hs hnd
  · rintro i definitions rfl
    obtain ⟨hnd, -, hviable⟩ := harose.hoisting_eq hl hk
    rw [hviable]
    exact Sharing.conflict?_settle (keys_viable_nodup hnd) (unambiguous_settle hk hs hnd)
  · rintro i definitions rfl c' hres hperm key
    obtain ⟨hnd, hhoisted, hviable⟩ := harose.hoisting_eq hl hk
    refine get?_resolve_perm hnd hres hperm (fun k => ?_) (fun k a b ha hb => ?_) key
    · rw [hhoisted]
      exact hoistedNames_nodup hk
    · rw [hviable] at ha hb
      exact settled_name_eq hk hs hnd ha hb

theorem shares_exactly_twins :
    ∃ S : Set String, "Size" ∈ S ∧
      standard.Alike (standard.ownDefinitions (Loader.ofDocuments twins) "a.json")
        (standard.ownDefinitions (Loader.ofDocuments twins) "b.json") "a.json" "b.json" S := by
  obtain ⟨out, h⟩ := twins_done
  have hshares := shares_exactly twins_ordered (Reachable.of_run h)
  -- both documents call the definition by the name that the first one got for it
  have hnames : ∀ i ∈ ["a.json", "b.json"],
      ((standard.endContext (Loader.ofDocuments twins) (standard.stepBound twins)
        twinsRoot).resource? i).map Resource.localNames = some [("Size", "Size2")] := by
    decide +kernel
  obtain ⟨here, hhere, hlocal⟩ := Option.map_eq_some_iff.mp (hnames "a.json" (by simp))
  obtain ⟨there, hthere, hlocal'⟩ := Option.map_eq_some_iff.mp (hnames "b.json" (by simp))
  refine (hshares.same "a.json" "b.json" here there "Size" (by decide) (by simp [Phase.current?])
    (by simp [Phase.current?]) hhere hthere (by decide +kernel) (by decide +kernel)).mp
    ⟨"Size2", ?_, ?_⟩
  · rw [hlocal]
    rfl
  · rw [hlocal']
    rfl

end Embedder

end SchemaBundle
