/-
References mean after embedding what they meant before.

Every place of an embedded document has moved to one place of the output, the same one
for every reference that leads there.  At the new place stands what stood at the old one,
with its own references moved in turn.

For a document and for the definitions that were stored for it, this is what the run
does to every piece.  A definition that is shared was never touched for the document that
shares it: what stands at its place was found in another document and redirected there.
That it is right all the same is what sharing is about, since its references lead to
the same places from both.
-/
import SchemaBundle.Proofs.Embed.Frame

namespace SchemaBundle

open Pointer MountPath
open Record (AlikeAt)

variable {e : Embedder} {loader : Loader} {kept existing : List String} {H : List Record}
  {c : Context} {root : Json} {out : Embedded} {steps : Nat} {r s : Record}
  {d : LocalDefinition} {raw : String}

namespace MountPath

/-- Read a place of a document whose own definitions were taken out: a place below the
mount path is read in the definition under its key, if there is one. -/
def read? (mount : MountPath) (document : Json) (p : Pointer) : Option Json :=
  let (own, body) := mount.takeDefinitions document
  match mount.below? p with
  | some (key, rest) =>
    match Entries.get? own key with
    | some content => resolve? content rest
    | none => resolve? body p
  | none => resolve? body p

end MountPath

namespace Embedder

/-! ### Where the places of a document are -/

/-- A context knows the places of its documents. -/
theorem placeIn_of_mem (hk : c.Keeps kept H) (hr : r ∈ H) (p : Pointer) :
    e.placeIn c r.identity p = e.place r.resource p := by
  unfold placeIn
  rw [hk.resource_of_mem hr]

theorem place_own (hr : (r.locals.map (·.key)).Nodup) (hd : d ∈ r.locals) (rest : Pointer) :
    e.place r.resource (e.mount.segments ++ d.key :: rest) =
      e.mount.segments ++ d.name :: rest := by
  unfold place
  rw [below?_eq_some.mpr rfl, Option.bind_some]
  simp only [Record.get?_localNames hr hd, Option.map_some, Option.getD_some]

theorem place_body {p : Pointer}
    (h : ∀ d ∈ r.locals, ∀ rest, p ≠ e.mount.segments ++ d.key :: rest) :
    e.place r.resource p = e.mount.segments ++ r.name :: p := by
  unfold place
  cases hbelow : e.mount.below? p with
  | none => rfl
  | some found =>
      obtain ⟨key, rest⟩ := found
      have hnone : Entries.get? r.resource.localNames key = none := by
        rw [Entries.get?_eq_none_iff, Record.keys_localNames, List.mem_map]
        rintro ⟨d, hd, rfl⟩
        exact h d hd rest (below?_eq_some.mp hbelow)
      simp only [Option.bind_some, hnone, Option.map_none, Option.getD_none]
      rfl

/-- The root of a document is below its name. -/
theorem place_nil : e.place r.resource [] = e.mount.segments ++ [r.name] := by
  refine place_body fun d _ rest h => ?_
  exact List.append_ne_nil_of_right_ne_nil _ (List.cons_ne_nil _ _) h.symm

/-- A place of a document is one of its body, or one of a definition of its own. -/
theorem place_cases {document : Json} (hr : (r.locals.map (·.key)).Nodup)
    (htake : e.mount.takeDefinitions document = (r.own, r.body)) (p : Pointer) :
    (∃ d ∈ r.locals, ∃ rest, p = e.mount.segments ++ d.key :: rest ∧
      e.place r.resource p = e.mount.segments ++ d.name :: rest ∧
      e.mount.read? document p = resolve? d.content rest) ∨
    (e.place r.resource p = e.mount.segments ++ r.name :: p ∧
      e.mount.read? document p = resolve? r.body p) := by
  by_cases h : ∃ d ∈ r.locals, ∃ rest, p = e.mount.segments ++ d.key :: rest
  · obtain ⟨d, hd, rest, rfl⟩ := h
    refine Or.inl ⟨d, hd, rest, rfl, place_own hr hd rest, ?_⟩
    unfold read?
    simp only [htake, below?_eq_some.mpr rfl, Record.get?_own hr hd]
  · have hno : ∀ d ∈ r.locals, ∀ rest, p ≠ e.mount.segments ++ d.key :: rest :=
      fun d hd rest heq => h ⟨d, hd, rest, heq⟩
    refine Or.inr ⟨place_body hno, ?_⟩
    unfold read?
    simp only [htake]
    split
    · rename_i key rest hbelow
      split
      · rename_i content hget
        obtain ⟨d, hd, rfl, -⟩ := Record.of_get?_own hget
        exact absurd (below?_eq_some.mp hbelow) (hno d hd rest)
      · rfl
    · rfl

/-! ### Definitions that mean the same -/

/-- A reference in a definition leads to one place from all documents in which the
definition means the same. -/
theorem Sound.leads_alike (hs : e.Sound H) (hk : c.Keeps kept H) (hr : r ∈ H) (hs' : s ∈ H)
    (hd : d ∈ r.locals) (halike : AlikeAt e r s d.key) (hraw : raw ∈ d.content.refs) :
    (∀ url pointer, e.readLink raw = .ok (.outside url pointer) →
      Identity.resolve (some r.identity) url = Identity.resolve (some s.identity) url) ∧
    ∀ pointer, e.readLink raw = .ok (.inside pointer) →
      e.place r.resource pointer = e.place s.resource pointer := by
  by_cases hne : r = s
  · subst hne
    exact ⟨fun _ _ _ => rfl, fun _ _ => rfl⟩
  · obtain ⟨S, hS, halike⟩ := halike
    obtain ⟨v, w, hv, -, -, hrefs⟩ := halike d.key hS
    obtain rfl := Option.some.inj (hv.symm.trans (Record.get?_own (hs.distinct r hr) hd))
    have hsame := hrefs raw hraw
    unfold SameTarget at hsame
    constructor
    · intro url pointer hlink
      rw [hlink] at hsame
      exact hsame
    · intro pointer hlink
      rw [hlink] at hsame
      obtain ⟨key, rest, hbelow, hkey⟩ := hsame
      obtain ⟨v', w', hv', hw', -, -⟩ := halike key hkey
      obtain ⟨ε, hε, rfl, -⟩ := Record.of_get?_own hv'
      obtain ⟨ζ, hζ, hζkey, -⟩ := Record.of_get?_own hw'
      have hname : ε.name = ζ.name :=
        (hs.name_eq_iff hk hr hs' hne hε hζ hζkey.symm).mpr ⟨S, hkey, halike⟩
      rw [below?_eq_some.mp hbelow, place_own (hs.distinct r hr) hε, ← hζkey,
        place_own (hs.distinct s hs') hζ, hname]

theorem Sound.retarget_eq (hs : e.Sound H) (hk : c.Keeps kept H) (hr : r ∈ H) (hs' : s ∈ H)
    (hd : d ∈ r.locals) (halike : AlikeAt e r s d.key) (hraw : raw ∈ d.content.refs) :
    e.retarget (e.placeIn c) (some r.identity) raw =
      e.retarget (e.placeIn c) (some s.identity) raw := by
  obtain ⟨hout, hin⟩ := hs.leads_alike hk hr hs' hd halike hraw
  unfold retarget leadsTo?
  cases hlink : e.readLink raw with
  | error error => rfl
  | ok link =>
      cases link with
      | keep => rfl
      | inside pointer =>
          have hplace := hin pointer hlink
          simp only [Option.map_some, placeIn_of_mem hk hr, placeIn_of_mem hk hs', hplace]
      | outside url pointer => simp only [hout url pointer hlink]

/-- What has been followed from one document has been followed from every other in which
the definition means the same. -/
theorem Sound.settled_alike (hs : e.Sound H) (hk : c.Keeps kept H) (hr : r ∈ H) (hs' : s ∈ H)
    (hd : d ∈ r.locals) (halike : AlikeAt e r s d.key) (hraw : raw ∈ d.content.refs)
    (h : e.Settled c (some s.identity) raw) : e.Settled c (some r.identity) raw where
  reads := h.reads
  known := by
    intro i p hleads
    obtain ⟨hout, -⟩ := hs.leads_alike hk hr hs' hd halike hraw
    unfold leadsTo? at hleads
    cases hlink : e.readLink raw with
    | error error => rw [hlink] at hleads; simp at hleads
    | ok link =>
        rw [hlink] at hleads
        cases link with
        | keep => simp at hleads
        | inside pointer =>
            obtain ⟨rfl, -⟩ := Prod.mk.inj (Option.some.inj hleads)
            rw [hk.resource_of_mem hr]
            rfl
        | outside url pointer =>
            obtain ⟨rfl, rfl⟩ := Prod.mk.inj (Option.some.inj hleads)
            refine h.known _ pointer ?_
            rw [leadsTo?, hlink, hout url pointer hlink]

/-! ### What stands at the new places -/

namespace Finished

variable (hfin : e.Finished loader root existing H c out)
include hfin

theorem done_body (hr : r ∈ H) : ∃ w, c.definitions.get? r.name = some w ∧
    e.Done c (some r.identity) r.body w :=
  hfin.finished ⟨r.name, r.identity, r.body⟩
    (List.mem_flatMap.mpr ⟨r, hr, Record.mem_pieces.mpr (Or.inl rfl)⟩)

/-- **A definition stands at its place as if it had been redirected for its document**,
also when it was stored for another one. -/
theorem done_own (hs : e.Sound H) (hr : r ∈ H) (hd : d ∈ r.locals) :
    (∃ w, c.definitions.get? d.name = some w ∧
      (w == d.content.mapRefs (e.retarget (e.placeIn c) (some r.identity))) = true) ∧
    ∀ raw ∈ d.content.refs, e.Settled c (some r.identity) raw := by
  have hk := hfin.holds.keeps
  obtain ⟨s, hs', δ, hδ, hfresh, hkey, hname, halike⟩ := hs.origin r hr d hd
  obtain ⟨w, hw, hdone⟩ := hfin.finished (δ.piece s.identity)
    (List.mem_flatMap.mpr ⟨s, hs', Record.mem_pieces.mpr (Or.inr ⟨δ, hδ, hfresh, rfl⟩)⟩)
  have halike : AlikeAt e s r δ.key ∨ (s = r ∧ δ = d) := by
    rcases halike with rfl | halike
    · exact Or.inr ⟨rfl, Record.eq_of_key (hs.distinct r hr) hδ hd hkey⟩
    · exact Or.inl (hkey ▸ halike.symm)
  rcases halike with halike | ⟨rfl, rfl⟩
  · have hcontent : (δ.content == d.content) = true :=
      (hs.of_name_eq hk hs' hr hδ hd hkey hname).1
    have hrefs := Json.refs_eq_of_beq hcontent
    refine ⟨⟨w, hname ▸ hw, ?_⟩, fun raw hraw => ?_⟩
    · have hmap : w = δ.content.mapRefs (e.retarget (e.placeIn c) (some r.identity)) :=
        hdone.eq.trans (Json.mapRefs_congr _ fun raw hraw =>
          hs.retarget_eq hk hs' hr hδ halike hraw)
      rw [hmap]
      exact Json.mapRefs_beq hcontent _
    · exact hs.settled_alike hk hr hs' hd (hkey ▸ halike.symm) hraw
        (hdone.settled raw (hrefs ▸ hraw))
  · exact ⟨⟨w, hw, by rw [hdone.eq]; exact BEq.rfl⟩, hdone.settled⟩

/-- What stands at the place that a place of a document has moved to: it is read off
something stored there, which is what was found in the document, redirected. -/
theorem at_place {document : Json} (hs : e.Sound H) (hr : r ∈ H)
    (htake : e.mount.takeDefinitions document = (r.own, r.body)) (p : Pointer) :
    ∃ content w rest, rest <:+ p ∧
      (w == content.mapRefs (e.retarget (e.placeIn c) (some r.identity))) = true ∧
      resolve? out.document (e.placeIn c r.identity p) = resolve? w rest ∧
      e.mount.read? document p = resolve? content rest := by
  rw [placeIn_of_mem hfin.holds.keeps hr]
  rcases place_cases (hs.distinct r hr) htake p with ⟨d, hd, rest, rfl, hto, hread⟩ | ⟨hto, hread⟩
  · obtain ⟨⟨w, hw, heq⟩, -⟩ := hfin.done_own hs hr hd
    refine ⟨d.content, w, rest, ?_, heq, ?_, hread⟩
    · exact (List.suffix_cons d.key rest).trans (List.suffix_append _ _)
    · rw [hto, hfin.below_new hw]
  · obtain ⟨w, hw, hdone⟩ := hfin.done_body hr
    refine ⟨r.body, w, p, List.suffix_rfl, by rw [hdone.eq]; exact BEq.rfl, ?_, hread⟩
    rw [hto, hfin.below_new hw]

/-- A reference of the root has its new text where it was. -/
theorem root_ref {p : Pointer} (h : resolve? root (p ++ ["$ref"]) = some (.string raw)) :
    e.Settled c none raw ∧
      resolve? out.document (p ++ ["$ref"]) = some (.string (e.rootText c raw)) := by
  obtain ⟨w, hdone, -⟩ := hfin.root
  refine ⟨hdone.settled raw (mem_refs_of_resolve? h), ?_⟩
  rw [hfin.stays h (by simp), mapRefsEnd_ref]

end Finished

/-- Reading something redirected: a pointer leads somewhere exactly if it did before, and
to an equal value but for references. -/
private theorem resolve?_changed {v w : Json} {f : String → String}
    (h : (w == v.mapRefs f) = true) (p : Pointer) :
    ((resolve? w p).isSome ↔ (resolve? v p).isSome) ∧
      ∀ y, resolve? v p = some y →
        ∃ x, resolve? w p = some x ∧ (x == mapRefsEnd f p y) = true := by
  have hrel := resolve?_beq h p
  rw [resolve?_mapRefs] at hrel
  generalize resolve? w p = x at hrel ⊢
  cases hv : resolve? v p with
  | none =>
      rw [hv, Option.map_none] at hrel
      cases hrel
      simp
  | some y =>
      rw [hv, Option.map_some] at hrel
      cases hrel with
      | @some x _ hxy =>
          refine ⟨by simp, fun y' hy' => ⟨x, rfl, ?_⟩⟩
          rw [← Option.some.inj hy']
          exact hxy

/-! ### What references mean -/

/-- The text that leads to a place of the output. -/
def textOf (p : Pointer) : Json :=
  .string (Reference.internal p).format

open Reference (placePart)

/-- What has become of the references and the places of a document, when place `p` of
document `i` has moved to `q i p`. -/
structure Moved (e : Embedder) (loaded : List String) (q : String → Pointer → Pointer)
    (identity : String) (document out : Json) : Prop where
  /-- References in the body lead to where their targets have moved. -/
  body : ∀ p raw i, resolve? (e.mount.takeDefinitions document).2 (p ++ ["$ref"]) =
      some (.string raw) → e.LeadsInto (some identity) raw i →
    i ∈ loaded ∧ ∃ target, Pointer.parse (placePart raw) = .ok target ∧
      resolve? out (q identity [] ++ p ++ ["$ref"]) = some (textOf (q i target))
  /-- So do those in the document's own definitions. -/
  own : ∀ key content p raw i,
    Entries.get? (e.mount.takeDefinitions document).1 key = some content →
    resolve? content (p ++ ["$ref"]) = some (.string raw) →
    e.LeadsInto (some identity) raw i →
    i ∈ loaded ∧ ∃ target, Pointer.parse (placePart raw) = .ok target ∧
      resolve? out (q identity (e.mount.segments ++ [key]) ++ p ++ ["$ref"]) =
        some (textOf (q i target))
  /-- A place is there exactly if it was. -/
  found : ∀ p, (resolve? out (q identity p)).isSome ↔ (e.mount.read? document p).isSome
  /-- What stands there is what stood there, with its references led to where their
  targets have moved. -/
  value : ∀ p v, e.mount.read? document p = some v →
    p.getLast? ≠ some "$ref" ∨ v.string? = none →
    ∃ w, resolve? out (q identity p) = some w ∧
      (w == v.mapRefs (e.retarget q (some identity))) = true

theorem retarget_of_leads {q : String → Pointer → Pointer} {scope : Option String} {i : String}
    {target : Pointer} (h : e.leadsTo? scope raw = some (i, target)) :
    e.retarget q scope raw = (Reference.internal (q i target)).format := by
  unfold retarget
  rw [h]

/-- A reference of the root to a document leads to the place where that place of the document
has moved. -/
theorem Finished.root_leads (hfin : e.Finished loader root existing H c out) {q : Pointer}
    {url : String} (hloc : resolve? root (q ++ ["$ref"]) = some (.string raw))
    (hnames : e.Names raw url) :
    ∃ p, ∃ r ∈ H, Pointer.parse (placePart raw) = .ok p ∧
      r.identity = Identity.resolve none url ∧
      resolve? out.document (q ++ ["$ref"]) = some (textOf (e.place r.resource p)) := by
  obtain ⟨hsettled, hnew⟩ := hfin.root_ref hloc
  obtain ⟨p, hparse, hleads, hknown⟩ := hsettled.leads (Or.inl ⟨url, hnames, rfl⟩)
  have hk := hfin.holds.keeps
  obtain ⟨r, hr, hid⟩ := List.mem_map.mp (hk.isSome_resource?.mp hknown)
  refine ⟨p, r, hr, hparse, hid, ?_⟩
  rw [hnew, rootText, retarget_of_leads hleads, ← hid, placeIn_of_mem hk hr]
  rfl

/-- A reference in something redirected leads to where its target has moved. -/
private theorem ref_changed {q : String → Pointer → Pointer} {scope : Option String} {i : String}
    {target p : Pointer} {v w : Json} (h : (w == v.mapRefs (e.retarget q scope)) = true)
    (hloc : resolve? v (p ++ ["$ref"]) = some (.string raw))
    (hleads : e.leadsTo? scope raw = some (i, target)) :
    resolve? w (p ++ ["$ref"]) = some (textOf (q i target)) := by
  obtain ⟨x, hw, hx⟩ := (resolve?_changed h (p ++ ["$ref"])).2 _ hloc
  rw [mapRefsEnd_ref] at hx
  rw [hw, Json.eq_string_of_beq (BEq.symm hx), retarget_of_leads hleads]
  rfl

/-- Every loaded document has moved. -/
theorem Finished.moved (hfin : e.Finished loader root existing H c out) (hs : e.Sound H)
    (hr : r ∈ H) {document : Json}
    (htake : e.mount.takeDefinitions document = (r.own, r.body)) :
    e.Moved c.loaded (e.placeIn c) r.identity document out.document := by
  have hk := hfin.holds.keeps
  have hloaded : ∀ {i}, (c.resource? i).isSome → i ∈ c.loaded := by
    intro i hi
    rw [hk.loaded]
    exact hk.isSome_resource?.mp hi
  have hplace : e.placeIn c r.identity = e.place r.resource := funext (placeIn_of_mem hk hr)
  refine ⟨?_, ?_, ?_, ?_⟩
  · intro p raw i hloc hinto
    rw [htake] at hloc
    obtain ⟨w, hw, hdone⟩ := hfin.done_body hr
    obtain ⟨target, hparse, hleads, hknown⟩ :=
      (hdone.settled raw (mem_refs_of_resolve? hloc)).leads hinto
    refine ⟨hloaded hknown, target, hparse, ?_⟩
    rw [hplace, place_nil, List.append_assoc, List.append_assoc, List.singleton_append,
      hfin.below_new hw]
    exact ref_changed (by rw [hdone.eq]; exact BEq.rfl) hloc hleads
  · intro key content p raw i hget hloc hinto
    rw [htake] at hget
    obtain ⟨d, hd, rfl, rfl⟩ := Record.of_get?_own hget
    obtain ⟨⟨w, hw, heq⟩, hsettled⟩ := hfin.done_own hs hr hd
    obtain ⟨target, hparse, hleads, hknown⟩ :=
      (hsettled raw (mem_refs_of_resolve? hloc)).leads hinto
    refine ⟨hloaded hknown, target, hparse, ?_⟩
    rw [hplace, place_own (hs.distinct r hr) hd, List.append_assoc, List.append_assoc,
      List.singleton_append, hfin.below_new hw]
    exact ref_changed heq hloc hleads
  · intro p
    obtain ⟨content, w, rest, -, heq, hto, hread⟩ := hfin.at_place hs hr htake p
    rw [hto, hread]
    exact (resolve?_changed heq rest).1
  · intro p v hv hend
    obtain ⟨content, w, rest, hsuffix, heq, hto, hread⟩ := hfin.at_place hs hr htake p
    rw [hread] at hv
    have hend : rest.getLast? ≠ some "$ref" ∨ v.string? = none := by
      refine hend.imp_left fun hne hlast => hne ?_
      obtain ⟨t, rfl⟩ := hsuffix
      rw [List.getLast?_append, hlast, Option.some_or]
    obtain ⟨x, hw, hx⟩ := (resolve?_changed heq rest).2 v hv
    rw [mapRefsEnd_eq _ hend] at hx
    exact ⟨x, by rw [hto, hw], hx⟩

/-- **Embedding keeps what references mean.** There is one place of the output for every
place of an embedded document; every reference in the root and in the embedded documents
leads to the place of its target; and there stands what stood in the document, with its own
references changed in the same way. -/
theorem run_keeps_meaning (hl : loader.Ordered)
    (h : (e.run loader steps root).outcome = .done out) :
    ∃ q : String → Pointer → Pointer,
      (∀ p raw i, resolve? root (p ++ ["$ref"]) = some (.string raw) →
        e.LeadsInto none raw i →
        i ∈ (e.run loader steps root).loaded ∧
          ∃ target, Pointer.parse (placePart raw) = .ok target ∧
            resolve? out.document (p ++ ["$ref"]) = some (textOf (q i target))) ∧
      ∀ i ∈ (e.run loader steps root).loaded, ∃ document, loader i = .ok document ∧
        e.Moved (e.run loader steps root).loaded q i document out.document := by
  obtain ⟨hloaded, existing, H, hfin⟩ := finished_of_run h
  have hk := hfin.holds.keeps
  rw [hloaded]
  refine ⟨e.placeIn (e.endContext loader steps root), ?_, ?_⟩
  · intro p raw i hloc hinto
    obtain ⟨hsettled, hnew⟩ := hfin.root_ref hloc
    obtain ⟨target, hparse, hleads, hknown⟩ := hsettled.leads hinto
    refine ⟨hk.loaded ▸ hk.isSome_resource?.mp hknown, target, hparse, ?_⟩
    rw [hnew, rootText, retarget_of_leads hleads]
    rfl
  · intro i hi
    rw [hk.loaded] at hi
    obtain ⟨r, hr, rfl⟩ := List.mem_map.mp hi
    obtain ⟨document, hfetch, htake⟩ := hfin.holds.documents r hr
    exact ⟨document, Loader.of_fetch hfetch, hfin.moved (hfin.holds.sound hl) hr htake⟩

theorem run_keeps_meaning_twins :
    ∃ out q, (standard.runOn twins twinsRoot).outcome = .done out ∧
      ∀ i ∈ (standard.runOn twins twinsRoot).loaded, ∃ document,
        Loader.ofDocuments twins i = .ok document ∧
          standard.Moved (standard.runOn twins twinsRoot).loaded q i document out.document := by
  obtain ⟨out, h⟩ := twins_done
  obtain ⟨q, -, hmoved⟩ := run_keeps_meaning twins_ordered h
  exact ⟨out, q, h, hmoved⟩

end Embedder

end SchemaBundle
