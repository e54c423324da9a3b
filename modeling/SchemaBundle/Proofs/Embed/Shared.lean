/-
Definitions are shared exactly when they mean the same.

Two statements about the records of a context carry each other along.  Every definition
has the name of one that was stored, in its own document or in one where it means the
same.  And no two stored definitions mean the same.  Together they say that two documents
have one name for a key if and only if their definitions under it mean the same.

The first is soundness of what the search settles on: what is left of the candidates
closes a set of keys, because a requirement names a sibling by the name it has for the
owner, and by induction equal names already mean equal meaning.  The second is that the
search settles on all there is: whatever means the same is a closed set of candidates.
Since candidates that are left mean the same as one and the same definition, they mean
the same as each other, so no key is ever left with two.
-/
import SchemaBundle.Proofs.Embed.Alike

namespace SchemaBundle

open Sharing (Has settle Unambiguous)

variable {e : Embedder} {kept : List String} {H : List Record} {c : Context}
  {r s t : Record} {d δ : LocalDefinition} {key i : String} {A : List (String × Json)}

namespace Record

/-- The definitions of two documents under a key mean the same. -/
def AlikeAt (e : Embedder) (r s : Record) (key : String) : Prop :=
  ∃ S : Set String, key ∈ S ∧ e.Alike r.own s.own r.identity s.identity S

theorem AlikeAt.symm (h : AlikeAt e r s key) : AlikeAt e s r key := by
  obtain ⟨S, hkey, hS⟩ := h
  exact ⟨S, hkey, hS.symm⟩

theorem AlikeAt.trans (h : AlikeAt e r s key) (h' : AlikeAt e s t key) : AlikeAt e r t key := by
  obtain ⟨S, hkey, hS⟩ := h
  obtain ⟨T, hkey', hT⟩ := h'
  exact ⟨S ∩ T, ⟨hkey, hkey'⟩, hS.trans hT⟩

variable (hr : (r.locals.map (·.key)).Nodup)
include hr

theorem eq_of_key (hd : d ∈ r.locals) (hδ : δ ∈ r.locals) (h : d.key = δ.key) : d = δ :=
  List.inj_on_of_nodup_map hr hd hδ h

theorem get?_own (hd : d ∈ r.locals) : Entries.get? r.own d.key = some d.content :=
  Entries.get?_of_mem (by rwa [keys_own]) (List.mem_map.mpr ⟨d, hd, rfl⟩)

theorem get?_localNames (hd : d ∈ r.locals) :
    Entries.get? r.resource.localNames d.key = some d.name :=
  Entries.get?_of_mem (by rwa [keys_localNames]) (List.mem_map.mpr ⟨d, hd, rfl⟩)

omit hr in
theorem of_get?_own {v : Json} (h : Entries.get? r.own key = some v) :
    ∃ d ∈ r.locals, d.key = key ∧ d.content = v := by
  obtain ⟨d, hd, heq⟩ := List.mem_map.mp (Entries.mem_of_get? h)
  exact ⟨d, hd, (Prod.mk.inj heq).1, (Prod.mk.inj heq).2⟩

omit hr in
theorem of_get?_localNames {name : String}
    (h : Entries.get? r.resource.localNames key = some name) :
    ∃ d ∈ r.locals, d.key = key ∧ d.name = name := by
  obtain ⟨d, hd, heq⟩ := List.mem_map.mp (Entries.mem_of_get? h)
  exact ⟨d, hd, (Prod.mk.inj heq).1, (Prod.mk.inj heq).2⟩

end Record

open Record (AlikeAt)

/-- Names are shared soundly, and wherever they can be. -/
structure Embedder.Sound (e : Embedder) (H : List Record) : Prop where
  /-- No document has two definitions under one key. -/
  distinct : ∀ r ∈ H, (r.locals.map (·.key)).Nodup
  /-- Every definition has the name of a stored one that means the same. -/
  origin : ∀ r ∈ H, ∀ d ∈ r.locals, ∃ s ∈ H, ∃ δ ∈ s.locals, δ.fresh = true ∧
    δ.key = d.key ∧ δ.name = d.name ∧ (r = s ∨ AlikeAt e r s d.key)
  /-- No two stored definitions mean the same. -/
  apart : ∀ r ∈ H, ∀ s ∈ H, ∀ d ∈ r.locals, ∀ δ ∈ s.locals, d.fresh = true → δ.fresh = true →
    d.key = δ.key → AlikeAt e r s d.key → r = s

theorem Embedder.sound_nil (e : Embedder) : e.Sound [] where
  distinct := by simp
  origin := by simp
  apart := by simp

theorem exists_right_of_mem {α β : Type} {R : α → β → Prop} {xs : List α} {ys : List β}
    (h : List.Forall₂ R xs ys) {x : α} (hx : x ∈ xs) : ∃ y ∈ ys, R x y := by
  induction h with
  | nil => simp at hx
  | cons hxy _ ih =>
      rcases List.mem_cons.mp hx with rfl | hx
      · exact ⟨_, List.mem_cons_self, hxy⟩
      · obtain ⟨y, hy, hR⟩ := ih hx
        exact ⟨y, List.mem_cons_of_mem _ hy, hR⟩

private theorem exists_forall₂ {α β : Type} {R : α → β → Prop} {xs : List α}
    (h : ∀ x ∈ xs, ∃ y, R x y) : ∃ ys, List.Forall₂ R xs ys := by
  induction xs with
  | nil => exact ⟨[], List.Forall₂.nil⟩
  | cons x xs ih =>
      obtain ⟨y, hy⟩ := h x List.mem_cons_self
      obtain ⟨ys, hys⟩ := ih fun x hx => h x (List.mem_cons_of_mem _ hx)
      exact ⟨y :: ys, List.Forall₂.cons hy hys⟩

section

variable (hk : c.Keeps kept H) (hs : e.Sound H)
include hk hs

/-- A stored definition is known by its name. -/
theorem Embedder.Sound.eq_of_fresh (hr : r ∈ H) (hs' : s ∈ H) (hd : d ∈ r.locals)
    (hδ : δ ∈ s.locals) (hfresh : d.fresh = true) (hfresh' : δ.fresh = true)
    (hkey : d.key = δ.key) (hname : d.name = δ.name) : r = s ∧ d = δ := by
  have hmem : ∀ {r d}, r ∈ H → d ∈ r.locals → d.fresh = true →
      d.piece r.identity ∈ H.flatMap Record.pieces := fun hr hd hfresh =>
    List.mem_flatMap.mpr ⟨_, hr, Record.mem_pieces.mpr (Or.inr ⟨_, hd, hfresh, rfl⟩)⟩
  have hpiece : d.piece r.identity = δ.piece s.identity :=
    List.inj_on_of_nodup_map hk.stored.nodup (hmem hr hd hfresh) (hmem hs' hδ hfresh') hname
  obtain rfl := hk.eq_of_identity hr hs' (congrArg Piece.identity hpiece)
  exact ⟨rfl, Record.eq_of_key (hs.distinct r hr) hd hδ hkey⟩

/-- **One name for a key, one meaning.** -/
theorem Embedder.Sound.name_eq_iff (hr : r ∈ H) (hs' : s ∈ H) (hne : r ≠ s) (hd : d ∈ r.locals)
    (hδ : δ ∈ s.locals) (hkey : d.key = δ.key) : d.name = δ.name ↔ AlikeAt e r s d.key := by
  obtain ⟨u, hu, ε, hε, hfresh, hεkey, hεname, hur⟩ := hs.origin r hr d hd
  obtain ⟨u', hu', ε', hε', hfresh', hεkey', hεname', hur'⟩ := hs.origin s hs' δ hδ
  have hkeys : ε.key = ε'.key := by rw [hεkey, hεkey', hkey]
  rw [← hkey] at hur'
  constructor
  · intro hname
    obtain ⟨rfl, -⟩ := hs.eq_of_fresh hk hu hu' hε hε' hfresh hfresh' hkeys
      (by rw [hεname, hεname', hname])
    rcases hur with rfl | h
    · rcases hur' with rfl | h'
      · exact absurd rfl hne
      · exact h'.symm
    · rcases hur' with rfl | h'
      · exact h
      · exact h.trans h'.symm
  · intro halike
    have hleft : AlikeAt e u s d.key := by
      rcases hur with rfl | h
      · exact halike
      · exact h.symm.trans halike
    have hboth : AlikeAt e u u' d.key := by
      rcases hur' with rfl | h
      · exact hleft
      · exact hleft.trans h
    obtain rfl := hs.apart u hu u' hu' ε hε ε' hε' hfresh hfresh' hkeys (hεkey ▸ hboth)
    rw [← hεname, ← hεname', Record.eq_of_key (hs.distinct u hu) hε hε' hkeys]

/-- What two documents with one name for a key have in common there: equal contents, and
reference by reference the same document outside, or one name for the same sibling. -/
theorem Embedder.Sound.of_name_eq (hr : r ∈ H) (hs' : s ∈ H) (hd : d ∈ r.locals)
    (hδ : δ ∈ s.locals) (hkey : d.key = δ.key) (hname : d.name = δ.name) :
    (d.content == δ.content) = true ∧ ∀ raw ∈ d.content.refs,
      (∀ url pointer, e.readLink raw = .ok (.outside url pointer) →
        Identity.resolve (some r.identity) url = Identity.resolve (some s.identity) url) ∧
      (∀ pointer sibling rest, e.readLink raw = .ok (.inside pointer) →
        e.mount.below? pointer = some (sibling, rest) → ∀ ε ∈ s.locals, ε.key = sibling →
          ∃ ε' ∈ r.locals, ε'.key = sibling ∧ ε'.name = ε.name) := by
  by_cases hne : r = s
  · subst hne
    obtain rfl := Record.eq_of_key (hs.distinct r hr) hd hδ hkey
    exact ⟨BEq.rfl, fun raw _ =>
      ⟨fun _ _ _ => rfl, fun _ _ _ _ _ ε hε hεkey => ⟨ε, hε, hεkey, rfl⟩⟩⟩
  · obtain ⟨S, hS, halike⟩ := (hs.name_eq_iff hk hr hs' hne hd hδ hkey).mp hname
    obtain ⟨v, w, hv, hw, heq, hrefs⟩ := halike d.key hS
    obtain rfl := Option.some.inj (hv.symm.trans (Record.get?_own (hs.distinct r hr) hd))
    rw [hkey, Record.get?_own (hs.distinct s hs') hδ, Option.some.injEq] at hw
    subst hw
    refine ⟨heq, fun raw hraw => ⟨fun url pointer hlink => ?_, ?_⟩⟩
    · have h := hrefs raw hraw
      unfold Embedder.SameTarget at h
      rw [hlink] at h
      exact h
    · intro pointer sibling rest hlink hbelow ε hε hεkey
      have h := hrefs raw hraw
      unfold Embedder.SameTarget at h
      rw [hlink] at h
      obtain ⟨sibling', rest', hbelow', hsib⟩ := h
      rw [hbelow, Option.some.injEq, Prod.mk.injEq] at hbelow'
      obtain ⟨rfl, rfl⟩ := hbelow'
      obtain ⟨v', w', hv', -, -⟩ := halike sibling hsib
      obtain ⟨ε', hε', hεkey', -⟩ := Record.of_get?_own hv'
      refine ⟨ε', hε', hεkey', ?_⟩
      exact (hs.name_eq_iff hk hr hs' hne hε' hε (hεkey'.trans hεkey.symm)).mpr
        ⟨S, hεkey'.symm ▸ hsib, halike⟩

/-! ### Candidates and the definitions behind them -/

omit hs in
/-- Behind every candidate stands a stored definition, and what it requires is what the
references of the content require. -/
theorem candidate_origin {cand : Sharing.Candidate} (h : Has (c.viable e.refTarget i A) key cand) :
    ∃ content, (key, content) ∈ A ∧ ∃ s ∈ H, ∃ δ ∈ s.locals, δ.fresh = true ∧ δ.key = key ∧
      δ.name = cand.name ∧ (δ.content == content) = true ∧
      ∀ raw ∈ content.refs, ∃ q, Context.requirement? e.refTarget i (Entries.keys A) s.identity
        s.resource.localNames raw = some q ∧ ∀ x, q = some x → x ∈ cand.requires := by
  obtain ⟨content, hmem, hcand⟩ := Embedder.has_viable.mp h
  obtain ⟨h, hh, heq, owner, howner, reqs, hreqs, rfl⟩ := Embedder.mem_shareCandidates.mp hcand
  obtain ⟨s, hs, δ, hδ, hfresh, hkey, rfl⟩ := hk.mem_hoistedAt.mp hh
  obtain rfl : s.resource = owner :=
    Option.some.inj ((hk.resource_of_mem hs).symm.trans howner)
  refine ⟨content, hmem, s, hs, δ, hδ, hfresh, hkey, rfl, heq, fun raw hraw => ?_⟩
  obtain ⟨q, hq, hR⟩ := exists_right_of_mem hreqs hraw
  refine ⟨q, hR, ?_⟩
  rintro x rfl
  exact List.mem_filterMap.mpr ⟨_, hq, rfl⟩

omit hs in
/-- A stored definition is a candidate for an equal one, if every reference is
acceptable. -/
theorem exists_candidate {content : Json} (hmem : (key, content) ∈ A) (hs : s ∈ H)
    (hδ : δ ∈ s.locals) (hfresh : δ.fresh = true) (hkey : δ.key = key)
    (heq : (δ.content == content) = true)
    (hreq : ∀ raw ∈ content.refs, ∃ q, Context.requirement? e.refTarget i (Entries.keys A)
      s.identity s.resource.localNames raw = some q) :
    ∃ cand, Has (c.viable e.refTarget i A) key cand ∧ cand.name = δ.name ∧
      ∀ x ∈ cand.requires, ∃ raw ∈ content.refs, Context.requirement? e.refTarget i
        (Entries.keys A) s.identity s.resource.localNames raw = some (some x) := by
  obtain ⟨reqs, hreqs⟩ := exists_forall₂ hreq
  refine ⟨⟨δ.name, reqs.filterMap id⟩, Embedder.has_viable.mpr ⟨content, hmem, ?_⟩, rfl, ?_⟩
  · refine Embedder.mem_shareCandidates.mpr ⟨δ.hoisted s.identity, ?_, heq, s.resource,
      hk.resource_of_mem hs, reqs, hreqs, rfl⟩
    exact hk.mem_hoistedAt.mpr ⟨s, hs, δ, hδ, hfresh, hkey, rfl⟩
  · intro x hx
    obtain ⟨q, hq, hqx⟩ := List.mem_filterMap.mp hx
    obtain ⟨raw, hraw, hR⟩ := exists_right_of_mem hreqs.flip hq
    exact ⟨raw, hraw, by rw [hR]; exact congrArg some hqx⟩

/-! ### What the search settles on -/

/-- **Soundness.** What is left of the candidates means the same. -/
theorem settled_alike (hA : (Entries.keys A).Nodup) {cand : Sharing.Candidate}
    (h : Has (settle (c.viable e.refTarget i A)) key cand) :
    ∃ s ∈ H, ∃ δ ∈ s.locals, δ.fresh = true ∧ δ.key = key ∧ δ.name = cand.name ∧
      ∃ S : Set String, key ∈ S ∧ e.Alike A s.own i s.identity S := by
  obtain ⟨content, -, s, hs', δ, hδ, hfresh, hkey, hname, -⟩ :=
    candidate_origin hk (Sharing.has_of_has_settle h)
  refine ⟨s, hs', δ, hδ, hfresh, hkey, hname, ?_⟩
  -- the keys for which a candidate is left under the name that the owner uses
  refine ⟨{k | ∃ σ ∈ s.locals, σ.key = k ∧
    ∃ cand', Has (settle (c.viable e.refTarget i A)) k cand' ∧ cand'.name = σ.name},
    ⟨δ, hδ, hkey, cand, h, hname.symm⟩, ?_⟩
  rintro k ⟨σ, hσ, rfl, cand', hcand', hname'⟩
  obtain ⟨v, hv, t, ht, τ, hτ, -, hτkey, hτname, heq, hreq⟩ :=
    candidate_origin hk (Sharing.has_of_has_settle hcand')
  obtain ⟨heq', hcommon⟩ :=
    hs.of_name_eq hk hs' ht hσ hτ hτkey.symm (hname'.symm.trans hτname.symm)
  refine ⟨v, σ.content, Entries.get?_of_mem hA hv, Record.get?_own (hs.distinct s hs') hσ,
    BEq.symm (BEq.trans heq' heq), fun raw hraw => ?_⟩
  have hraw' : raw ∈ σ.content.refs := Json.refs_eq_of_beq (BEq.trans heq' heq) ▸ hraw
  obtain ⟨hout, hin⟩ := hcommon raw hraw'
  obtain ⟨q, hq, hrequires⟩ := hreq raw hraw
  have hround := Embedder.requirement?_eq_some.mp hq
  unfold Embedder.SameTarget
  cases hlink : e.readLink raw with
  | error error => rw [hlink] at hround; exact hround
  | ok link =>
      rw [hlink] at hround
      cases link with
      | keep => trivial
      | outside url pointer => exact hround.1.trans (hout url pointer hlink).symm
      | inside pointer =>
          obtain ⟨sibling, rest, name, hbelow, -, hget, rfl⟩ := hround
          obtain ⟨cand'', hcand'', hname''⟩ := Sharing.settle_closed hcand' (hrequires _ rfl)
          obtain ⟨ε, hε, hεkey, hεname⟩ := Record.of_get?_localNames hget
          obtain ⟨ε', hε', hεkey', hεname'⟩ :=
            hin pointer sibling rest hlink hbelow ε hε hεkey
          exact ⟨sibling, rest, hbelow, ε', hε', hεkey', cand'', hcand'',
            by rw [hname'', hεname', hεname]⟩

omit hk in
/-- A reference with the same target from both documents is acceptable, and what it
requires is a sibling under the name that the owner uses. -/
theorem requirement?_of_sameTarget {T : Set String} {raw : String} (hs' : s ∈ H)
    (halike : e.Alike A s.own i s.identity T)
    (hsame : e.SameTarget T i s.identity raw) :
    ∃ q, Context.requirement? e.refTarget i (Entries.keys A) s.identity s.resource.localNames
        raw = some q ∧
      ∀ sibling name, q = some (sibling, name) → sibling ∈ T ∧
        ∃ ε ∈ s.locals, ε.key = sibling ∧ ε.name = name := by
  unfold Embedder.SameTarget at hsame
  cases hlink : e.readLink raw with
  | error error => rw [hlink] at hsame; exact hsame.elim
  | ok link =>
      rw [hlink] at hsame
      cases link with
      | keep =>
          refine ⟨none, Embedder.requirement?_eq_some.mpr ?_, by simp⟩
          rw [hlink]
      | outside url pointer =>
          refine ⟨none, Embedder.requirement?_eq_some.mpr ?_, by simp⟩
          rw [hlink]
          exact ⟨hsame, rfl⟩
      | inside pointer =>
          obtain ⟨sibling, rest, hbelow, hsib⟩ := hsame
          obtain ⟨v', w', hv', hw', -⟩ := halike sibling hsib
          obtain ⟨ε, hε, rfl, -⟩ := Record.of_get?_own hw'
          refine ⟨some (ε.key, ε.name), Embedder.requirement?_eq_some.mpr ?_, ?_⟩
          · rw [hlink]
            exact ⟨ε.key, rest, ε.name, hbelow, Entries.mem_keys_of_get? hv',
              Record.get?_localNames (hs.distinct s hs') hε, rfl⟩
          · rintro sibling name hq
            obtain ⟨rfl, rfl⟩ := Prod.mk.inj (Option.some.inj hq)
            exact ⟨hsib, ε, hε, rfl, rfl⟩

/-- A stored definition that means the same is a candidate, and what it requires are
siblings that mean the same. -/
theorem exists_candidate_of_alike {T : Set String} (hs' : s ∈ H) (hδ : δ ∈ s.locals)
    (hfresh : δ.fresh = true) (hkey : δ.key ∈ T) (halike : e.Alike A s.own i s.identity T) :
    ∃ cand, Has (c.viable e.refTarget i A) δ.key cand ∧ cand.name = δ.name ∧
      ∀ sibling name, (sibling, name) ∈ cand.requires → sibling ∈ T ∧
        ∃ ε ∈ s.locals, ε.key = sibling ∧ ε.name = name := by
  obtain ⟨v, w, hv, hw, heq, hrefs⟩ := halike δ.key hkey
  rw [Record.get?_own (hs.distinct s hs') hδ, Option.some.injEq] at hw
  subst hw
  have haccept := fun raw (hraw : raw ∈ v.refs) =>
    requirement?_of_sameTarget hs hs' halike (hrefs raw hraw)
  obtain ⟨cand, hcand, hname, hrequires⟩ := exists_candidate hk (Entries.mem_of_get? hv) hs' hδ
    hfresh rfl (BEq.symm heq) fun raw hraw => (haccept raw hraw).imp fun q hq => hq.1
  refine ⟨cand, hcand, hname, fun sibling name hx => ?_⟩
  obtain ⟨raw, hraw, hreq⟩ := hrequires _ hx
  obtain ⟨q, hq, hsibling⟩ := haccept raw hraw
  rw [hreq, Option.some.injEq] at hq
  exact hsibling sibling name hq.symm

/-- **Completeness.** What means the same is left. -/
theorem alike_settled {S : Set String} (hs' : s ∈ H) (hδ : δ ∈ s.locals)
    (hfresh : δ.fresh = true) (hkey : δ.key ∈ S)
    (halike : e.Alike A s.own i s.identity S) :
    ∃ cand, Has (settle (c.viable e.refTarget i A)) δ.key cand ∧ cand.name = δ.name := by
  -- all of them together are closed
  let T : String → Sharing.Candidate → Prop := fun k cand =>
    Has (c.viable e.refTarget i A) k cand ∧
      ∃ t ∈ H, ∃ τ ∈ t.locals, τ.fresh = true ∧ τ.key = k ∧ τ.name = cand.name ∧
        ∃ S : Set String, e.Alike A t.own i t.identity S ∧
          ∀ sibling name, (sibling, name) ∈ cand.requires → sibling ∈ S ∧
            ∃ ε ∈ t.locals, ε.key = sibling ∧ ε.name = name
  obtain ⟨cand, hcand, hname, hrequires⟩ :=
    exists_candidate_of_alike hk hs hs' hδ hfresh hkey halike
  refine ⟨cand, Sharing.settle_greatest (fun k cand h => h.1) ?_
    (show T δ.key cand from ⟨hcand, s, hs', δ, hδ, hfresh, rfl, hname.symm, S, halike, hrequires⟩),
    hname⟩
  rintro k cand ⟨-, t, ht, τ, hτ, -, rfl, -, S', halike', hrequires'⟩ sibling name hx
  obtain ⟨hsib, ε, hε, rfl, rfl⟩ := hrequires' sibling name hx
  obtain ⟨u, hu, ζ, hζ, hζfresh, hζkey, hζname, hrel⟩ := hs.origin t ht ε hε
  have hext : ∃ S'' : Set String, ζ.key ∈ S'' ∧ e.Alike A u.own i u.identity S'' := by
    rw [hζkey]
    rcases hrel with rfl | ⟨S₁, hS₁, halike₁⟩
    · exact ⟨S', hsib, halike'⟩
    · exact ⟨S' ∩ S₁, ⟨hsib, hS₁⟩, halike'.trans halike₁⟩
  obtain ⟨S'', hS'', halike''⟩ := hext
  obtain ⟨cand₁, hcand₁, hname₁, hrequires₁⟩ :=
    exists_candidate_of_alike hk hs hu hζ hζfresh hS'' halike''
  refine ⟨cand₁, ⟨hζkey ▸ hcand₁, u, hu, ζ, hζ, hζfresh, hζkey, hname₁.symm, S'', halike'',
    hrequires₁⟩, hname₁.trans hζname⟩

omit hs in
/-- No two offers under a key have one name. -/
theorem hoistedNames_nodup : ((c.hoistedAt key).map (·.name)).Nodup := by
  have hone : ∀ r : Record, ((r.hoistedAt key).map (·.name)).Sublist (r.pieces.map (·.name)) := by
    intro r
    unfold Record.hoistedAt Record.pieces
    rw [List.map_cons, List.map_map, List.map_map, ← List.filter_filter]
    show List.Sublist (List.map LocalDefinition.name _)
      (r.name :: List.map LocalDefinition.name _)
    exact ((List.filter_sublist.filter _).map _).cons _
  have hall : ∀ H : List Record, ((H.flatMap fun r => r.hoistedAt key).map (·.name)).Sublist
      ((H.flatMap Record.pieces).map (·.name)) := by
    intro H
    induction H with
    | nil => exact List.Sublist.refl _
    | cons r rest ih =>
        rw [List.flatMap_cons, List.flatMap_cons, List.map_append, List.map_append]
        exact (hone r).append ih
  rw [hk.hoisted]
  exact hk.stored.nodup.sublist (hall H)

/-- Candidates that are left for a key mean the same as each other, and so are one. -/
theorem settled_name_eq (hA : (Entries.keys A).Nodup) {a b : Sharing.Candidate}
    (ha : Has (settle (c.viable e.refTarget i A)) key a)
    (hb : Has (settle (c.viable e.refTarget i A)) key b) : a.name = b.name := by
  obtain ⟨s, hs₁, δ, hδ, hfresh, hkey, hname, S, hS, halike⟩ := settled_alike hk hs hA ha
  obtain ⟨t, ht, τ, hτ, hfresh', hkey', hname', T, hT, halike'⟩ := settled_alike hk hs hA hb
  have hboth : AlikeAt e s t δ.key := ⟨S ∩ T, hkey ▸ ⟨hS, hT⟩, halike.symm.trans halike'⟩
  obtain rfl := hs.apart s hs₁ t ht δ hδ τ hτ hfresh hfresh' (hkey.trans hkey'.symm) hboth
  rw [← hname, ← hname', Record.eq_of_key (hs.distinct s hs₁) hδ hτ (hkey.trans hkey'.symm)]

omit hs hk in
theorem settled_names_nodup (hnd : ∀ key, ((c.hoistedAt key).map (·.name)).Nodup)
    {cs : List Sharing.Candidate} (hcs : (key, cs) ∈ settle (c.viable e.refTarget i A)) :
    (cs.map (·.name)).Nodup := by
  obtain ⟨all, hall, hsub⟩ := Sharing.settle_sublist hcs
  exact (hnd key).sublist ((hsub.map _).trans (Embedder.candidateNames_sublist hall))

/-- **No key is left with two candidates.** -/
theorem unambiguous_settle (hA : (Entries.keys A).Nodup) :
    Unambiguous (settle (c.viable e.refTarget i A)) :=
  Sharing.unambiguous_of_names
    (fun _ _ hcs => settled_names_nodup (fun _ => hoistedNames_nodup hk) hcs)
    (fun _ _ _ ha hb => settled_name_eq hk hs hA ha hb)

/-- **Embedding one more document keeps the sharing right.** -/
theorem Embedder.Sound.extend {c' : Context} (hadm : Context.Admits e.refTarget kept H c r c')
    (hr : (r.locals.map (·.key)).Nodup) : e.Sound (H ++ [r]) := by
  have hA : (Entries.keys r.own).Nodup := by rwa [Record.keys_own]
  have hun := unambiguous_settle hk hs (i := r.identity) hA
  have hshared : ∀ key name : String,
      Entries.get? (Sharing.resolve (c.viable e.refTarget r.identity r.own)) key = some name ↔
        ∃ cand, Has (settle (c.viable e.refTarget r.identity r.own)) key cand ∧
          cand.name = name :=
    fun _ _ => Sharing.get?_resolve (Embedder.keys_viable_nodup hA) hun
  -- a definition that is stored means the same as none that was stored before
  have hnew : ∀ s ∈ H, ∀ d ∈ r.locals, ∀ δ ∈ s.locals, d.fresh = true → δ.fresh = true →
      d.key = δ.key → ¬ AlikeAt e r s d.key := by
    intro s hs' d hd δ hδ hfresh hfresh' hkey ⟨S, hS, halike⟩
    obtain ⟨cand, hcand, hname⟩ := alike_settled hk hs hs' hδ hfresh' (hkey ▸ hS) halike
    have hsome := (hshared δ.key δ.name).mpr ⟨cand, hcand, hname⟩
    rw [(hadm.shares d hd).1, hkey, hsome] at hfresh
    simp at hfresh
  refine ⟨?_, ?_, ?_⟩
  · exact List.forall_mem_append.mpr ⟨hs.distinct, List.forall_mem_singleton.mpr hr⟩
  · intro s hs' d hd
    rcases List.mem_append.mp hs' with hs' | hs'
    · obtain ⟨t, ht, h⟩ := hs.origin s hs' d hd
      exact ⟨t, List.mem_append_left _ ht, h⟩
    · obtain rfl := List.mem_singleton.mp hs'
      by_cases hfresh : d.fresh = true
      · exact ⟨s, List.mem_append_right _ (List.mem_singleton.mpr rfl), d, hd, hfresh, rfl, rfl,
          Or.inl rfl⟩
      · obtain ⟨hisNone, hname⟩ := hadm.shares d hd
        rw [hisNone, Option.isNone_iff_eq_none] at hfresh
        obtain ⟨name, hsome⟩ := Option.ne_none_iff_exists'.mp hfresh
        obtain ⟨cand, hcand, rfl⟩ := (hshared d.key name).mp hsome
        obtain ⟨t, ht, δ, hδ, hfresh', hkey', hname', S, hS, halike⟩ :=
          settled_alike hk hs hA hcand
        exact ⟨t, List.mem_append_left _ ht, δ, hδ, hfresh', hkey',
          hname'.trans (hname _ hsome).symm, Or.inr ⟨S, hS, halike⟩⟩
  · intro s hs₁ t ht d hd δ hδ hfresh hfresh' hkey halike
    rcases List.mem_append.mp hs₁ with hold | hlast <;>
      rcases List.mem_append.mp ht with hold' | hlast'
    · exact hs.apart s hold t hold' d hd δ hδ hfresh hfresh' hkey halike
    · obtain rfl := List.mem_singleton.mp hlast'
      exact absurd (hkey ▸ halike.symm) (hnew s hold δ hδ d hd hfresh' hfresh hkey.symm)
    · obtain rfl := List.mem_singleton.mp hlast
      exact absurd halike (hnew t hold' d hd δ hδ hfresh hfresh' hkey)
    · rw [List.mem_singleton.mp hlast, List.mem_singleton.mp hlast']

end

end SchemaBundle
