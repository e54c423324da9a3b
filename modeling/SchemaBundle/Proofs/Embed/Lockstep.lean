/-
Two runs that name things differently go in step.

A name is asked for when a document is met and when a definition is stored, and it is never
looked into: documents are met in the order of the references, pieces wait in the order in
which they were stored, and what is stored for a document is decided by what its definitions
mean.  So two embedders that read references alike load the same documents in the same order
and store the same pieces for them, and the records of their contexts differ in names only.

The one place where names seem to matter is the search for definitions to share, since a
candidate is required by its name.  That is where soundness of sharing comes in: a definition
is stored exactly when it means the same as no earlier one, which mentions no name.
-/
import SchemaBundle.Proofs.Embed.Run

namespace SchemaBundle

open Record (AlikeAt)

/-! ### Leaving out the names -/

/-- What is stored, without its name. -/
def Piece.unnamed (p : Piece) : Piece :=
  { p with name := "" }

/-- A document's own definition, without the name that stands for it. -/
def LocalDefinition.unnamed (d : LocalDefinition) : LocalDefinition :=
  { d with name := "" }

/-- An embedded document, without names. -/
def Record.unnamed (r : Record) : Record :=
  { r with name := "", locals := r.locals.map LocalDefinition.unnamed }

variable {e e' : Embedder} {loader : Loader} {root : Json} {kept kept' existing : List String}
  {H H' : List Record} {r s r' s' : Record} {d : LocalDefinition} {key : String}
  {scope : Option String} {active active' : List Piece} {c c' c₁ c₁' : Context}

@[simp] theorem Record.own_unnamed (r : Record) : r.unnamed.own = r.own := by
  simp [Record.unnamed, Record.own, LocalDefinition.unnamed, Function.comp_def]

theorem Record.pieces_unnamed (r : Record) : r.unnamed.pieces = r.pieces.map Piece.unnamed := by
  simp [Record.unnamed, Record.pieces, LocalDefinition.unnamed, LocalDefinition.piece,
    Piece.unnamed, List.filter_map, Function.comp_def]

/-- Which definitions mean the same has nothing to do with names. -/
theorem Record.alikeAt_unnamed : AlikeAt e r.unnamed s.unnamed key ↔ AlikeAt e r s key := by
  unfold AlikeAt
  rw [Record.own_unnamed, Record.own_unnamed]
  rfl

theorem identities_eq_of_unnamed (h : H.map Record.unnamed = H'.map Record.unnamed) :
    H.map Record.identity = H'.map Record.identity := by
  have hid : Record.identity ∘ Record.unnamed = Record.identity := rfl
  rw [← hid, ← List.map_map, h, List.map_map]

theorem pieces_eq_of_unnamed (h : H.map Record.unnamed = H'.map Record.unnamed) :
    (H.flatMap Record.pieces).map Piece.unnamed = (H'.flatMap Record.pieces).map Piece.unnamed := by
  have hall : ∀ H : List Record, (H.flatMap Record.pieces).map Piece.unnamed =
      (H.map Record.unnamed).flatMap Record.pieces := by
    intro H
    rw [List.map_flatMap, List.flatMap_map]
    exact List.flatMap_congr fun r _ => r.pieces_unnamed.symm
  rw [hall, hall, h]

theorem exists_alike_iff_of_unnamed (h : H.map Record.unnamed = H'.map Record.unnamed)
    (hid : r.identity = r'.identity) (hown : r.own = r'.own) :
    (∃ s ∈ H, AlikeAt e r s key) ↔ ∃ s ∈ H', AlikeAt e r' s key := by
  have hleft : ∀ s, AlikeAt e r s key ↔ AlikeAt e r' s key := by
    intro s
    unfold AlikeAt
    rw [hid, hown]
  have hright : ∀ H : List Record, (∃ s ∈ H, AlikeAt e r' s key) ↔
      ∃ s ∈ H.map Record.unnamed, AlikeAt e r'.unnamed s key := by
    intro H
    simp only [List.mem_map, exists_exists_and_eq_and, Record.alikeAt_unnamed]
  simp only [hleft]
  rw [hright, hright, h]

namespace Embedder

/-- Two embedders that differ only in how they give names. -/
structure Kin (e e' : Embedder) : Prop where
  mount : e'.mount = e.mount
  classify : e'.classify = e.classify

namespace Kin

variable (hkin : e.Kin e')
include hkin

theorem readLink : e'.readLink = e.readLink := by
  funext raw
  unfold Embedder.readLink
  rw [hkin.classify]

theorem leadsTo? : e'.leadsTo? = e.leadsTo? := by
  funext scope raw
  unfold Embedder.leadsTo?
  rw [hkin.readLink]

theorem place : e'.place = e.place := by
  funext resource pointer
  unfold Embedder.place
  rw [hkin.mount]

theorem existingNames : e'.existingNames = e.existingNames := by
  funext root
  unfold Embedder.existingNames
  rw [hkin.mount]

theorem alikeAt : AlikeAt e' r s key ↔ AlikeAt e r s key := by
  unfold AlikeAt Alike SameTarget
  rw [hkin.readLink, hkin.mount]

end Kin

/-! ### What is stored for a document -/

/-- **A definition is stored exactly when it means the same as none that came before.** -/
theorem Sound.fresh_iff (hs : e.Sound H) (hs' : e.Sound (H ++ [r])) (hnew : r ∉ H)
    (hd : d ∈ r.locals) : d.fresh = true ↔ ¬ ∃ s ∈ H, AlikeAt e r s d.key := by
  have hr : r ∈ H ++ [r] := List.mem_append_right _ (List.mem_singleton.mpr rfl)
  constructor
  · rintro hfresh ⟨s, hmem, halike⟩
    -- the other definition has one that was stored behind it, and that one means the same
    obtain ⟨S, hS, hall⟩ := id halike
    obtain ⟨-, w, -, hw, -⟩ := hall d.key hS
    obtain ⟨δ, hδ, hδkey, -⟩ := Record.of_get?_own hw
    obtain ⟨u, hu, ε, hε, hεfresh, hεkey, -, hrel⟩ := hs.origin s hmem δ hδ
    have hboth : AlikeAt e r u d.key := by
      rcases hrel with rfl | hrel
      · exact halike
      · exact halike.trans (hδkey ▸ hrel)
    have heq := hs'.apart r hr u (List.mem_append_left _ hu) d hd ε hε hfresh hεfresh
      (hδkey.symm.trans hεkey.symm) hboth
    exact hnew (heq ▸ hu)
  · intro hnone
    obtain ⟨s, hmem, δ, hδ, hδfresh, hδkey, -, hrel⟩ := hs'.origin r hr d hd
    have hsame : s = r := by
      rcases List.mem_append.mp hmem with hold | hlast
      · rcases hrel with heq | halike
        · exact heq.symm
        · exact absurd ⟨s, hold, halike⟩ hnone
      · exact List.mem_singleton.mp hlast
    subst hsame
    exact Record.eq_of_key (hs'.distinct s hr) hδ hd hδkey ▸ hδfresh

open Classical in
/-- So the definitions of a document, without their names, are what was found in it and what
came before. -/
theorem Sound.unnamed_locals (hs : e.Sound H) (hs' : e.Sound (H ++ [r])) (hnew : r ∉ H) :
    r.locals.map LocalDefinition.unnamed = r.own.map fun entry =>
      ⟨entry.1, "", entry.2, decide ¬ ∃ s ∈ H, AlikeAt e r s entry.1⟩ := by
  unfold Record.own
  rw [List.map_map]
  refine List.map_congr_left fun d hd => ?_
  have hfresh : d.fresh = decide ¬ ∃ s ∈ H, AlikeAt e r s d.key := by
    rw [Bool.eq_iff_iff, decide_eq_true_iff]
    exact hs.fresh_iff hs' hnew hd
  simp only [LocalDefinition.unnamed, Function.comp_apply, hfresh]

/-- Two documents with the same content, each the next one of its run. -/
theorem unnamed_eq (hkin : e.Kin e') (h : H.map Record.unnamed = H'.map Record.unnamed)
    (hid : r.identity = r'.identity) (hown : r.own = r'.own) (hbody : r.body = r'.body)
    (hs : e.Sound H) (hs₁ : e.Sound (H ++ [r])) (hnew : r ∉ H) (hs' : e'.Sound H')
    (hs₁' : e'.Sound (H' ++ [r'])) (hnew' : r' ∉ H') : r.unnamed = r'.unnamed := by
  have hlocals : r.locals.map LocalDefinition.unnamed =
      r'.locals.map LocalDefinition.unnamed := by
    rw [hs.unnamed_locals hs₁ hnew, hs'.unnamed_locals hs₁' hnew', hown]
    refine List.map_congr_left fun entry _ => ?_
    have hiff : (∃ s ∈ H, AlikeAt e r s entry.1) ↔ ∃ s ∈ H', AlikeAt e' r' s entry.1 := by
      rw [exists_alike_iff_of_unnamed h hid hown]
      exact exists_congr fun s => and_congr_right fun _ => hkin.alikeAt.symm
    rw [decide_eq_decide.mpr (not_congr hiff)]
  unfold Record.unnamed
  rw [hlocals, hid, hbody]

/-! ### In step -/

/-- Two runs over one root are in step: as many pieces are done in both, and the records
differ in names only. -/
inductive Abreast (e e' : Embedder) (loader : Loader) (root : Json) (kept kept' : List String)
    (active active' : List Piece) (c c' : Context) : Prop
  | intro {H H' : List Record} {done done' waiting waiting' : List Piece}
      (left : e.Progress loader root kept H done active waiting c)
      (right : e'.Progress loader root kept' H' done' active' waiting' c')
      (same : H.map Record.unnamed = H'.map Record.unnamed)
      (hdone : done.length = done'.length) (hactive : active.length = active'.length)

namespace Abreast

variable (hkin : e.Kin e') (hl : loader.Ordered)

theorem start (e e' : Embedder) (loader : Loader) (root : Json) (existing : List String) :
    Abreast e e' loader root (e.reserved ++ existing) (e'.reserved ++ existing) [] []
      (Context.start e.maxSuffix (e.reserved ++ existing))
      (Context.start e'.maxSuffix (e'.reserved ++ existing)) :=
  .intro (e.progress_start loader root existing) (e'.progress_start loader root existing) rfl
    rfl rfl

include hkin hl in
/-- A document is known in both, or it is embedded in both. -/
theorem embed {i : String} (h : Abreast e e' loader root kept kept' active active' c c')
    (hdemanded : e.Demanded loader root i) (hdemanded' : e'.Demanded loader root i)
    (hrun : e.ensureEmbedded loader i c = .ok () c₁)
    (hrun' : e'.ensureEmbedded loader i c' = .ok () c₁') :
    Abreast e e' loader root kept kept' active active' c₁ c₁' := by
  obtain ⟨left, right, same, hdone, hactive⟩ := h
  have hk := left.holds.keeps
  have hk' := right.holds.keeps
  have hknown : (c.resource? i).isSome ↔ (c'.resource? i).isSome := by
    rw [hk.isSome_resource?, hk'.isSome_resource?, identities_eq_of_unnamed same]
  rcases ensureEmbedded_ok hk hrun with
    ⟨rfl, hsome⟩ | ⟨r, document, hid, hfetch, htake, hadm⟩ <;>
  rcases ensureEmbedded_ok hk' hrun' with
    ⟨rfl, hsome'⟩ | ⟨r', document', hid', hfetch', htake', hadm'⟩
  · exact .intro left right same hdone hactive
  · rw [hknown, ← hid', hadm'.unknown] at hsome
    simp at hsome
  · rw [← hknown, ← hid, hadm.unknown] at hsome'
    simp at hsome'
  · obtain rfl := Except.ok.inj (hfetch.symm.trans hfetch')
    obtain ⟨hown, hbody⟩ : r.own = r'.own ∧ r.body = r'.body :=
      Prod.mk.inj (htake.symm.trans (hkin.mount ▸ htake'))
    have left' := left.extend (hid ▸ hdemanded) (hid ▸ hfetch) htake hadm
    have right' := right.extend (hid' ▸ hdemanded') (hid' ▸ hfetch) htake' hadm'
    have hunnamed : r.unnamed = r'.unnamed :=
      unnamed_eq hkin same (hid.trans hid'.symm) hown hbody (left.holds.sound hl)
        (left'.holds.sound hl) (hadm.not_mem hk) (right.holds.sound hl)
        (right'.holds.sound hl) (hadm'.not_mem hk')
    refine .intro left' right' ?_ hdone hactive
    rw [List.map_append, List.map_append, same, List.map_singleton, List.map_singleton, hunnamed]

include hkin hl in
/-- References are followed in both. -/
theorem follow {raws texts texts' : List String}
    (h : Abreast e e' loader root kept kept' active active' c c')
    (hraws : ∀ raw ∈ raws, ∀ url, e.Names raw url →
      e.Demanded loader root (Identity.resolve scope url))
    (hraws' : ∀ raw ∈ raws, ∀ url, e'.Names raw url →
      e'.Demanded loader root (Identity.resolve scope url))
    (hrun : Follows e loader scope raws texts c c₁)
    (hrun' : Follows e' loader scope raws texts' c' c₁') :
    Abreast e e' loader root kept kept' active active' c₁ c₁' := by
  induction hrun generalizing texts' c' with
  | nil c =>
      cases hrun'
      exact h
  | @cons raw text raws texts c c₂ c₁ first _ ih =>
      cases hrun' with
      | @cons _ text' _ texts' _ c₂' _ first' rest' =>
          refine ih ?_ (fun raw hraw => hraws raw (List.mem_cons_of_mem _ hraw))
            (fun raw hraw => hraws' raw (List.mem_cons_of_mem _ hraw)) rest'
          rcases redirectRef_embeds first with ⟨url, pointer, hlink, hembed⟩ | ⟨hnot, rfl⟩ <;>
          rcases redirectRef_embeds first' with ⟨url', pointer', hlink', hembed'⟩ | ⟨hnot', rfl⟩
          · rw [hkin.readLink, hlink, Except.ok.injEq, Link.outside.injEq] at hlink'
            obtain ⟨rfl, rfl⟩ := hlink'
            refine h.embed hkin hl ?_ ?_ hembed hembed'
            · exact hraws raw List.mem_cons_self url (readLink_outside.mp hlink).1
            · rw [← hkin.readLink] at hlink
              exact hraws' raw List.mem_cons_self url (readLink_outside.mp hlink).1
          · rw [hkin.readLink] at hnot'
            exact absurd hlink (hnot' url pointer)
          · rw [hkin.readLink] at hlink'
            exact absurd hlink' (hnot url' pointer')
          · exact h

include hkin hl in
theorem redirect {v w w' : Json} (h : Abreast e e' loader root kept kept' active active' c c')
    (hrefs : ∀ raw ∈ v.refs, ∀ url, e.Names raw url →
      e.Demanded loader root (Identity.resolve scope url))
    (hrefs' : ∀ raw ∈ v.refs, ∀ url, e'.Names raw url →
      e'.Demanded loader root (Identity.resolve scope url))
    (hrun : e.redirect loader scope v c = .ok w c₁)
    (hrun' : e'.redirect loader scope v c' = .ok w' c₁') :
    Abreast e e' loader root kept kept' active active' c₁ c₁' := by
  obtain ⟨texts, hfollows, -⟩ := redirect_follows hrun
  obtain ⟨texts', hfollows', -⟩ := redirect_follows hrun'
  exact h.follow hkin hl hrefs hrefs' hfollows hfollows'

/-- The pieces that were taken are put back, redirected. -/
theorem complete {p p' : Piece} {w w' : Json}
    (h : Abreast e e' loader root kept kept' [p] [p'] c c')
    (hw : e.Done c (some p.identity) p.content w)
    (hw' : e'.Done c' (some p'.identity) p'.content w') :
    Abreast e e' loader root kept kept' [] [] (c.complete p.name w) (c'.complete p'.name w') := by
  obtain ⟨left, right, same, hdone, -⟩ := h
  refine .intro (left.complete hw) (right.complete hw') same ?_ rfl
  rw [List.length_append, List.length_append, hdone, List.length_singleton, List.length_singleton]

include hkin hl in
/-- In both, the same piece waits longest. -/
theorem step {more more' : Bool} (h : Abreast e e' loader root kept kept' [] [] c c')
    (hrun : e.step loader c = .ok more c₁) (hrun' : e'.step loader c' = .ok more' c₁') :
    more = more' ∧ Abreast e e' loader root kept kept' [] [] c₁ c₁' := by
  obtain ⟨left, right, same, hdone, -⟩ := h
  have hpieces := pieces_eq_of_unnamed same
  rw [left.pieces, right.pieces, List.append_nil, List.append_nil, List.map_append,
    List.map_append] at hpieces
  have hwaiting := (List.append_inj hpieces (by rw [List.length_map, List.length_map, hdone])).2
  rcases left.step_cases hrun with
    ⟨rfl, rfl, rfl⟩ | ⟨p, rest, w, c₂, rfl, rfl, hmem, htaken, hredirect, rfl⟩ <;>
  rcases right.step_cases hrun' with
    ⟨rfl, rfl, rfl⟩ | ⟨p', rest', w', c₂', rfl, rfl, hmem', htaken', hredirect', rfl⟩
  · exact ⟨rfl, .intro left right same hdone rfl⟩
  · simp at hwaiting
  · simp at hwaiting
  · have hp : p.unnamed = p'.unnamed := (List.cons.inj hwaiting).1
    have hid : p'.identity = p.identity := (congrArg Piece.identity hp).symm
    have hcontent : p'.content = p.content := (congrArg Piece.content hp).symm
    have hrefs : ∀ raw ∈ p.content.refs, ∀ url, e.Names raw url →
        e.Demanded loader root (Identity.resolve (some p.identity) url) :=
      fun raw hraw url hnames => left.holds.demanded_of_mem left.demanded hmem hraw hnames
    have hrefs' : ∀ raw ∈ p'.content.refs, ∀ url, e'.Names raw url →
        e'.Demanded loader root (Identity.resolve (some p'.identity) url) :=
      fun raw hraw url hnames => right.holds.demanded_of_mem right.demanded hmem' hraw hnames
    obtain ⟨-, -, hw⟩ := htaken.redirect hrefs hredirect
    obtain ⟨-, -, hw'⟩ := htaken'.redirect hrefs' hredirect'
    have htaken : Abreast e e' loader root kept kept' [p] [p'] _ _ :=
      .intro htaken htaken' same hdone rfl
    rw [hid, hcontent] at hrefs' hredirect'
    exact ⟨rfl, (htaken.redirect hkin hl hrefs hrefs' hredirect hredirect').complete hw hw'⟩

end Abreast

/-! ### Whole runs -/

/-- Steps are taken until nothing waits. -/
inductive Drains (e : Embedder) (loader : Loader) : Context → Context → Prop
  | through {c : Context} (hwork : c.worklist = []) : Drains e loader c c
  | more {c c₁ c' : Context} (step : e.step loader c = .ok true c₁)
      (rest : Drains e loader c₁ c') : Drains e loader c c'

theorem drains_of_drain {steps : Nat} (h : e.drain loader steps c = .ok true c') :
    Drains e loader c c' := by
  induction steps generalizing c with
  | zero =>
      unfold Embedder.drain at h
      simp only [Embedding.bind_eq_ok, Embedding.get_eq_ok, Embedding.pure_eq_ok] at h
      obtain ⟨a, c₁, ⟨rfl, rfl⟩, hempty, rfl⟩ := h
      exact .through (List.isEmpty_iff.mp hempty)
  | succ steps ih =>
      unfold Embedder.drain at h
      obtain ⟨more, c₁, hstep, hrest⟩ := Embedding.bind_eq_ok.mp h
      cases more with
      | true => exact .more hstep (ih hrest)
      | false =>
          obtain ⟨-, rfl⟩ := Embedding.pure_eq_ok.mp hrest
          rcases step_ok hstep with ⟨hwork, -, rfl⟩ | ⟨_, _, _, _, _, hmore, _⟩
          · exact .through hwork
          · simp at hmore

theorem worklist_of_step (h : e.step loader c = .ok true c') : c.worklist ≠ [] := by
  rcases step_ok h with ⟨-, hmore, -⟩ | ⟨_, _, _, _, hwork, -⟩
  · simp at hmore
  · simp [hwork]

theorem Drains.worklist_eq (h : Drains e loader c c') : c'.worklist = [] := by
  induction h with
  | through hwork => exact hwork
  | more _ _ ih => exact ih

theorem Abreast.worklist_iff (h : Abreast e e' loader root kept kept' [] [] c c') :
    c.worklist = [] ↔ c'.worklist = [] := by
  obtain ⟨left, right, same, hdone, -⟩ := h
  have hlength := congrArg List.length (pieces_eq_of_unnamed same)
  rw [List.length_map, List.length_map, left.pieces, right.pieces] at hlength
  simp only [List.length_append, List.length_nil, hdone, Nat.add_left_cancel_iff] at hlength
  rw [left.worklist, right.worklist, List.map_eq_nil_iff, List.map_eq_nil_iff,
    ← List.length_eq_zero_iff, hlength, List.length_eq_zero_iff]

/-- Until nothing waits, both take the same steps, with however many each of them could. -/
theorem Abreast.drain (hkin : e.Kin e') (hl : loader.Ordered)
    (h : Abreast e e' loader root kept kept' [] [] c c') (hrun : Drains e loader c c₁)
    (hrun' : Drains e' loader c' c₁') : Abreast e e' loader root kept kept' [] [] c₁ c₁' := by
  induction hrun generalizing c' with
  | through hwork =>
      cases hrun' with
      | through _ => exact h
      | more hstep' _ => exact absurd (h.worklist_iff.mp hwork) (worklist_of_step hstep')
  | more hstep _ ih =>
      cases hrun' with
      | through hwork' => exact absurd (h.worklist_iff.mpr hwork') (worklist_of_step hstep)
      | more hstep' hrest' => exact ih (h.step hkin hl hstep hstep').2 hrest'

/-- Redirecting a root until nothing waits. -/
theorem traverse_ok {steps : Nat} {w : Json} (h : e.traverse loader steps root c = .ok (some w) c') :
    ∃ c₁, e.redirect loader none root c = .ok w c₁ ∧ Drains e loader c₁ c' := by
  unfold traverse at h
  simp only [Embedding.bind_eq_ok, Embedding.pure_eq_ok] at h
  obtain ⟨w', c₁, hredirect, through, c₂, hdrain, hresult, rfl⟩ := h
  cases through with
  | false => simp at hresult
  | true =>
      rw [if_pos rfl, Option.some.injEq] at hresult
      exact ⟨c₁, hresult ▸ hredirect, drains_of_drain hdrain⟩

/-- When nothing waits, everything stored is done. -/
theorem Progress.finish {done waiting : List Piece} {w : Json} {out : Embedded}
    (h : e.Progress loader root (e.reserved ++ existing) H done [] waiting c)
    (hwork : c.worklist = []) (hexisting : e.existingNames root = .ok existing)
    (hdone : e.Done c none root w) (hfinish : e.finish c w = .ok out) :
    e.Finished loader root existing H c out := by
  rw [h.worklist, List.map_eq_nil_iff] at hwork
  refine finished_of_finish hexisting h.holds h.demanded (fun p hp => ?_) hdone hfinish
  rw [h.pieces, hwork, List.append_nil, List.append_nil] at hp
  exact h.finished p hp

/-- **Two runs that succeed go in step to their ends**: the records of their contexts differ
in names only. -/
theorem finished_abreast {steps steps' : Nat} {out out' : Embedded} (hkin : e.Kin e')
    (hl : loader.Ordered) (h : (e.run loader steps root).outcome = .done out)
    (h' : (e'.run loader steps' root).outcome = .done out') :
    ∃ existing H H', H.map Record.unnamed = H'.map Record.unnamed ∧
      e.Finished loader root existing H (e.endContext loader steps root) out ∧
      e'.Finished loader root existing H' (e'.endContext loader steps' root) out' := by
  obtain ⟨existing, w, hexisting, htraverse, hfinish, -⟩ := run_done h
  obtain ⟨existing', w', hexisting', htraverse', hfinish', -⟩ := run_done h'
  obtain rfl : existing = existing' := by
    rw [hkin.existingNames, hexisting] at hexisting'
    exact Except.ok.inj hexisting'
  obtain ⟨-, -, -, -, hdone⟩ := traverse_done htraverse
  obtain ⟨-, -, -, -, hdone'⟩ := traverse_done htraverse'
  obtain ⟨c₁, hredirect, hdrains⟩ := traverse_ok htraverse
  obtain ⟨c₁', hredirect', hdrains'⟩ := traverse_ok htraverse'
  have hends := ((Abreast.start e e' loader root existing).redirect hkin hl
    (fun _ hraw _ hnames => Demanded.root hraw hnames)
    (fun _ hraw _ hnames => Demanded.root hraw hnames) hredirect hredirect').drain hkin hl
      hdrains hdrains'
  obtain ⟨left, right, same, -, -⟩ := hends
  exact ⟨existing, _, _, same, left.finish hdrains.worklist_eq hexisting hdone hfinish,
    right.finish hdrains'.worklist_eq hexisting' hdone' hfinish'⟩

end Embedder

end SchemaBundle
