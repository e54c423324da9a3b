/-
Redirecting is following the references in order and then changing their texts.

`redirect` goes through a tree and threads the context through it, which makes it hard
to say anything about by itself.  This file takes the two apart once and for all.  What
happens to the context is what `redirectRef` does to it, one reference text after the
other, in the order of `refs`.  What happens to the value is a change of those texts.

Nothing that is learned about a document is ever forgotten, so the texts can all be
read off the context in which everything ends: `retarget` computes them from the place
that each identity and pointer has there.
-/
import SchemaBundle.Embed.Basic
import SchemaBundle.Proofs.Json
import SchemaBundle.Proofs.Reference

namespace SchemaBundle

/-! ### Computations that succeed -/

namespace Embedding

variable {α β : Type} {c c' : Context}

@[simp] theorem bind_eq_ok {x : Embedding α} {f : α → Embedding β} {b : β} :
    (x >>= f) c = .ok b c' ↔ ∃ a c₁, x c = .ok a c₁ ∧ f a c₁ = .ok b c' := by
  show EStateM.bind x f c = .ok b c' ↔ _
  unfold EStateM.bind
  cases x c with
  | ok a c₁ => simp
  | error e c₁ => simp

@[simp] theorem map_eq_ok {x : Embedding α} {f : α → β} {b : β} :
    (f <$> x) c = .ok b c' ↔ ∃ a, x c = .ok a c' ∧ f a = b := by
  show EStateM.map f x c = .ok b c' ↔ _
  unfold EStateM.map
  cases x c with
  | ok a c₁ => simp [and_comm]
  | error e c₁ => simp

@[simp] theorem pure_eq_ok {a b : α} :
    (pure a : Embedding α) c = .ok b c' ↔ a = b ∧ c = c' := by
  show EStateM.Result.ok a c = .ok b c' ↔ _
  simp

@[simp] theorem get_eq_ok {c₁ : Context} :
    (get : Embedding Context) c = .ok c₁ c' ↔ c = c₁ ∧ c = c' := by
  show EStateM.Result.ok c c = .ok c₁ c' ↔ _
  simp

@[simp] theorem set_eq_ok {c₁ : Context} {u : PUnit} :
    (set c₁ : Embedding PUnit) c = .ok u c' ↔ c₁ = c' := by
  show EStateM.Result.ok PUnit.unit c₁ = .ok u c' ↔ _
  simp

@[simp] theorem modify_eq_ok {f : Context → Context} {u : PUnit} :
    (modify f : Embedding PUnit) c = .ok u c' ↔ f c = c' := by
  show EStateM.Result.ok PUnit.unit (f c) = .ok u c' ↔ _
  simp

@[simp] theorem throw_ne_ok {error : Error} {a : α} :
    ¬ (throw error : Embedding α) c = .ok a c' := by
  show ¬ EStateM.Result.error error c = .ok a c'
  simp

/-! ### Computations that fail -/

variable {error : Error}

@[simp] theorem bind_eq_error {x : Embedding α} {f : α → Embedding β} :
    (x >>= f) c = .error error c' ↔
      x c = .error error c' ∨ ∃ a c₁, x c = .ok a c₁ ∧ f a c₁ = .error error c' := by
  show EStateM.bind x f c = .error error c' ↔ _
  unfold EStateM.bind
  cases x c with
  | ok a c₁ => simp
  | error e c₁ => simp

@[simp] theorem map_eq_error {x : Embedding α} {f : α → β} :
    (f <$> x) c = .error error c' ↔ x c = .error error c' := by
  show EStateM.map f x c = .error error c' ↔ _
  unfold EStateM.map
  cases x c with
  | ok a c₁ => simp
  | error e c₁ => simp

@[simp] theorem pure_ne_error {a : α} : ¬ (pure a : Embedding α) c = .error error c' := by
  show ¬ EStateM.Result.ok a c = .error error c'
  simp

@[simp] theorem get_ne_error : ¬ (get : Embedding Context) c = .error error c' := by
  show ¬ EStateM.Result.ok c c = .error error c'
  simp

@[simp] theorem set_ne_error {c₁ : Context} :
    ¬ (set c₁ : Embedding PUnit) c = .error error c' := by
  show ¬ EStateM.Result.ok _ _ = .error error c'
  simp

@[simp] theorem modify_ne_error {f : Context → Context} :
    ¬ (modify f : Embedding PUnit) c = .error error c' := by
  show ¬ EStateM.Result.ok PUnit.unit (f c) = .error error c'
  simp

@[simp] theorem throw_eq_error {thrown : Error} :
    (throw thrown : Embedding α) c = .error error c' ↔ thrown = error ∧ c = c' := by
  show EStateM.Result.error thrown c = .error error c' ↔ _
  simp

end Embedding

namespace Embedder

variable {e : Embedder} {loader : Loader} {scope : Option String} {c c' : Context}

/-! ### Reading a reference -/

open Reference (documentPart placePart)

/-- A reference text names a document that is embedded. -/
def Names (e : Embedder) (raw url : String) : Prop :=
  documentPart raw = url ∧ url ≠ "" ∧ e.classify url = .embeddable

/-- A reference text names no document, so that it stays in the one that holds it. -/
def Stays (e : Embedder) (raw : String) : Prop :=
  documentPart raw = "" ∧ ('#' ∈ raw.toList ∨ e.classify "" = .embeddable)

/-- Reading a text goes by its two parts. -/
private theorem readLink_eq (e : Embedder) (raw : String) : e.readLink raw =
    match Pointer.parse (placePart raw) with
    | .error reason =>
      .error (.invalidReference raw (Reference.Malformed.badPointer reason).message)
    | .ok pointer =>
      if documentPart raw = "" then
        if '#' ∈ raw.toList ∨ e.classify "" = .embeddable then .ok (.inside pointer)
        else .ok .keep
      else if e.classify (documentPart raw) = .embeddable then
        .ok (.outside (documentPart raw) pointer)
      else .ok .keep := by
  unfold readLink
  by_cases h : '#' ∈ raw.toList
  · rw [if_pos (by simpa using h)]
    rw [Reference.parse_of_mem h]
    cases Pointer.parse (placePart raw) with
    | error reason => rfl
    | ok pointer =>
        simp only [Reference.ofParts_eq]
        by_cases hempty : documentPart raw = ""
        · simp [hempty, h]
        · cases hkind : e.classify (documentPart raw) <;> simp [hempty, hkind]
  · obtain ⟨hdocument, hplace⟩ := Reference.parts_of_not_mem h
    rw [if_neg (by simpa using h), hdocument, hplace, show Pointer.parse "" = .ok [] from rfl]
    by_cases hempty : raw = ""
    · subst hempty
      cases e.classify "" <;> simp
    · cases e.classify raw <;> simp [hempty]

theorem readLink_outside {raw url : String} {pointer : Pointer} :
    e.readLink raw = .ok (.outside url pointer) ↔
      e.Names raw url ∧ Pointer.parse (placePart raw) = .ok pointer := by
  rw [readLink_eq]
  unfold Names
  cases Pointer.parse (placePart raw) with
  | error reason => simp
  | ok found =>
      by_cases hempty : documentPart raw = ""
      · have hno : ¬ (documentPart raw = url ∧ url ≠ "" ∧ e.classify url = .embeddable) := by
          rintro ⟨rfl, hne, -⟩
          exact hne hempty
        simp only [if_pos hempty, hno, false_and, iff_false]
        split <;> simp
      · by_cases hkind : e.classify (documentPart raw) = .embeddable
        · simp only [if_neg hempty, if_pos hkind, Except.ok.injEq, Link.outside.injEq]
          constructor
          · rintro ⟨rfl, rfl⟩
            exact ⟨⟨rfl, hempty, hkind⟩, rfl⟩
          · rintro ⟨⟨rfl, -, -⟩, rfl⟩
            exact ⟨rfl, rfl⟩
        · simp only [if_neg hempty, if_neg hkind]
          constructor
          · intro h
            simp at h
          · rintro ⟨⟨rfl, -, hembed⟩, -⟩
            exact absurd hembed hkind

theorem readLink_inside {raw : String} {pointer : Pointer} :
    e.readLink raw = .ok (.inside pointer) ↔
      e.Stays raw ∧ Pointer.parse (placePart raw) = .ok pointer := by
  rw [readLink_eq]
  unfold Stays
  cases Pointer.parse (placePart raw) with
  | error reason => simp
  | ok found =>
      by_cases hempty : documentPart raw = ""
      · by_cases hstays : '#' ∈ raw.toList ∨ e.classify "" = .embeddable
        · simp [hempty, hstays]
        · simp [hempty, hstays]
      · simp only [if_neg hempty]
        split <;> simp [hempty]

/-- Whether a text can be read depends on its second part only. -/
theorem readLink_ok_iff {raw : String} :
    (∃ link, e.readLink raw = .ok link) ↔
      ∃ pointer, Pointer.parse (placePart raw) = .ok pointer := by
  rw [readLink_eq]
  cases Pointer.parse (placePart raw) with
  | error reason => simp
  | ok pointer =>
      simp only [Except.ok.injEq, exists_eq', iff_true]
      split
      · split <;> exact ⟨_, rfl⟩
      · split <;> exact ⟨_, rfl⟩

/-- A text that names an ordinary link stays as it is, if the rest of it can be read. -/
theorem readLink_keep {raw : String} {pointer : Pointer} (hnamed : documentPart raw ≠ "")
    (hlink : e.classify (documentPart raw) = .link)
    (hparse : Pointer.parse (placePart raw) = .ok pointer) : e.readLink raw = .ok .keep := by
  rw [readLink_eq, hparse]
  simp [hnamed, hlink]

/-- A text that stays as it is names no document, or one that is an ordinary link. -/
theorem readLink_keep_document {raw : String} (h : e.readLink raw = .ok .keep) :
    documentPart raw = "" ∨ e.classify (documentPart raw) = .link := by
  by_cases hempty : documentPart raw = ""
  · exact Or.inl hempty
  · cases hkind : e.classify (documentPart raw) with
    | link => exact Or.inr rfl
    | embeddable =>
        rw [readLink_eq] at h
        cases hparse : Pointer.parse (placePart raw) <;> simp [hparse, hempty, hkind] at h

/-- The document that a reference leads to when it is found in a document, or in the root. -/
def LeadsInto (e : Embedder) (scope : Option String) (raw identity : String) : Prop :=
  (∃ url, e.Names raw url ∧ identity = Identity.resolve scope url) ∨
    (e.Stays raw ∧ scope = some identity)

/-- Where a reference leads when it is found in a document, or in the root: to a place
of a document that is, or is going to be, embedded. -/
def leadsTo? (e : Embedder) (scope : Option String) (raw : String) :
    Option (String × Pointer) :=
  match e.readLink raw with
  | .ok (.inside pointer) => scope.map fun identity => (identity, pointer)
  | .ok (.outside url pointer) => some (Identity.resolve scope url, pointer)
  | _ => none

theorem leadsTo?_eq_some {raw identity : String} {pointer : Pointer} :
    e.leadsTo? scope raw = some (identity, pointer) ↔
      e.LeadsInto scope raw identity ∧ Pointer.parse (placePart raw) = .ok pointer := by
  unfold leadsTo? LeadsInto
  constructor
  · intro h
    split at h
    · rename_i found hlink
      obtain ⟨hstays, hparse⟩ := readLink_inside.mp hlink
      obtain ⟨i, rfl, heq⟩ := Option.map_eq_some_iff.mp h
      obtain ⟨rfl, rfl⟩ := Prod.mk.inj heq
      exact ⟨Or.inr ⟨hstays, rfl⟩, hparse⟩
    · rename_i url found hlink
      obtain ⟨hnames, hparse⟩ := readLink_outside.mp hlink
      obtain ⟨rfl, rfl⟩ := Prod.mk.inj (Option.some.inj h)
      exact ⟨Or.inl ⟨url, hnames, rfl⟩, hparse⟩
    · simp at h
  · rintro ⟨⟨url, hnames, rfl⟩ | ⟨hstays, rfl⟩, hparse⟩
    · rw [readLink_outside.mpr ⟨hnames, hparse⟩]
    · rw [readLink_inside.mpr ⟨hstays, hparse⟩]
      rfl

/-- The text of a reference when every place has moved. -/
def retarget (e : Embedder) (q : String → Pointer → Pointer) (scope : Option String)
    (raw : String) : String :=
  match e.leadsTo? scope raw with
  | some (identity, pointer) => (Reference.internal (q identity pointer)).format
  | none => raw

/-- Where a place of a document has moved, as far as a context knows. -/
def placeIn (e : Embedder) (c : Context) (identity : String) (pointer : Pointer) : Pointer :=
  match c.resource? identity with
  | some resource => e.place resource pointer
  | none => pointer

/-- A reference has been followed: it can be read, and the document it leads to is known. -/
structure Settled (e : Embedder) (c : Context) (scope : Option String) (raw : String) : Prop where
  reads : ∃ link, e.readLink raw = .ok link
  known : ∀ identity pointer, e.leadsTo? scope raw = some (identity, pointer) →
    (c.resource? identity).isSome

/-- A reference that has been followed leads to a document that is known. -/
theorem Settled.leads {raw identity : String} (h : e.Settled c scope raw)
    (hinto : e.LeadsInto scope raw identity) : ∃ pointer,
      Pointer.parse (placePart raw) = .ok pointer ∧
        e.leadsTo? scope raw = some (identity, pointer) ∧ (c.resource? identity).isSome := by
  obtain ⟨link, hlink⟩ := h.reads
  rw [readLink_eq] at hlink
  cases hparse : Pointer.parse (placePart raw) with
  | error reason => rw [hparse] at hlink; simp at hlink
  | ok pointer =>
      have hleads := leadsTo?_eq_some.mpr ⟨hinto, hparse⟩
      exact ⟨pointer, rfl, hleads, h.known _ _ hleads⟩

theorem target_eq_ok {identity text : String} {pointer : Pointer} :
    e.target identity pointer c = .ok text c' ↔
      (c.resource? identity).isSome ∧ c' = c ∧
        text = (Reference.internal (e.placeIn c identity pointer)).format := by
  unfold target placeIn
  simp only [Embedding.bind_eq_ok, Embedding.get_eq_ok]
  constructor
  · rintro ⟨a, c₁, ⟨rfl, rfl⟩, h⟩
    cases hr : c.resource? identity with
    | none => rw [hr] at h; exact absurd h Embedding.throw_ne_ok
    | some resource =>
        rw [hr] at h
        obtain ⟨rfl, rfl⟩ := Embedding.pure_eq_ok.mp h
        exact ⟨rfl, rfl, rfl⟩
  · rintro ⟨hsome, rfl, rfl⟩
    obtain ⟨resource, hr⟩ := Option.isSome_iff_exists.mp hsome
    refine ⟨c', c', ⟨rfl, rfl⟩, ?_⟩
    rw [hr]
    exact Embedding.pure_eq_ok.mpr ⟨rfl, rfl⟩

/-- **What following one reference does**: at most, it embeds the document that the
reference names; and the new text is where the place is afterwards. -/
theorem redirectRef_ok {raw text : String} (h : e.redirectRef loader scope raw c = .ok text c') :
    (c' = c ∨ ∃ url pointer, e.readLink raw = .ok (.outside url pointer) ∧
      e.ensureEmbedded loader (Identity.resolve scope url) c = .ok () c') ∧
    e.Settled c' scope raw ∧ text = e.retarget (e.placeIn c') scope raw := by
  unfold redirectRef at h
  cases hlink : e.readLink raw with
  | error error => rw [hlink] at h; exact absurd h Embedding.throw_ne_ok
  | ok link =>
      rw [hlink] at h
      cases link with
      | keep =>
          obtain ⟨rfl, rfl⟩ := Embedding.pure_eq_ok.mp h
          have hnone : e.leadsTo? scope raw = none := by rw [leadsTo?, hlink]
          refine ⟨Or.inl rfl, ⟨⟨_, hlink⟩, fun i p hi => ?_⟩, ?_⟩
          · rw [hnone] at hi
            simp at hi
          · rw [retarget, hnone]
      | inside pointer =>
          cases scope with
          | none =>
              obtain ⟨rfl, rfl⟩ := Embedding.pure_eq_ok.mp h
              have hnone : e.leadsTo? none raw = none := by rw [leadsTo?, hlink]; rfl
              refine ⟨Or.inl rfl, ⟨⟨_, hlink⟩, fun i p hi => ?_⟩, ?_⟩
              · rw [hnone] at hi
                simp at hi
              · rw [retarget, hnone]
          | some identity =>
              obtain ⟨hsome, rfl, rfl⟩ := target_eq_ok.mp h
              have hleads : e.leadsTo? (some identity) raw = some (identity, pointer) := by
                rw [leadsTo?, hlink]; rfl
              refine ⟨Or.inl rfl, ⟨⟨_, hlink⟩, fun i p hi => ?_⟩, ?_⟩
              · rw [hleads, Option.some.injEq, Prod.mk.injEq] at hi
                exact hi.1 ▸ hsome
              · rw [retarget, hleads]
      | outside url pointer =>
          obtain ⟨u, c₁, hembed, htarget⟩ := Embedding.bind_eq_ok.mp h
          obtain ⟨hsome, rfl, rfl⟩ := target_eq_ok.mp htarget
          have hleads : e.leadsTo? scope raw = some (Identity.resolve scope url, pointer) := by
            rw [leadsTo?, hlink]
          refine ⟨Or.inr ⟨url, pointer, rfl, hembed⟩, ⟨⟨_, hlink⟩, fun i p hi => ?_⟩, ?_⟩
          · rw [hleads, Option.some.injEq, Prod.mk.injEq] at hi
            exact hi.1 ▸ hsome
          · rw [retarget, hleads]

/-- A reference to another document makes that document be embedded, and any other leaves
the context as it is. -/
theorem redirectRef_embeds {raw text : String}
    (h : e.redirectRef loader scope raw c = .ok text c') :
    (∃ url pointer, e.readLink raw = .ok (.outside url pointer) ∧
      e.ensureEmbedded loader (Identity.resolve scope url) c = .ok () c') ∨
    ((∀ url pointer, e.readLink raw ≠ .ok (.outside url pointer)) ∧ c' = c) := by
  by_cases hout : ∃ url pointer, e.readLink raw = .ok (.outside url pointer)
  · obtain ⟨url, pointer, hlink⟩ := hout
    refine Or.inl ⟨url, pointer, hlink, ?_⟩
    unfold redirectRef at h
    rw [hlink] at h
    obtain ⟨u, c₁, hembed, htarget⟩ := Embedding.bind_eq_ok.mp h
    obtain ⟨-, rfl, -⟩ := target_eq_ok.mp htarget
    exact hembed
  · have hnot : ∀ url pointer, e.readLink raw ≠ .ok (.outside url pointer) :=
      fun url pointer hlink => hout ⟨url, pointer, hlink⟩
    refine Or.inr ⟨hnot, ?_⟩
    rcases (redirectRef_ok h).1 with heq | ⟨url, pointer, hlink, -⟩
    · exact heq
    · exact absurd hlink (hnot url pointer)

/-- A document that is known is not embedded again. -/
theorem ensureEmbedded_known {identity : String} (h : (c.resource? identity).isSome) :
    e.ensureEmbedded loader identity c = .ok () c := by
  unfold ensureEmbedded
  simp only [Embedding.bind_eq_ok, Embedding.get_eq_ok]
  refine ⟨c, c, ⟨rfl, rfl⟩, ?_⟩
  rw [if_pos h]
  rfl

/-- To follow a reference again changes nothing, and gives the text of the place where it
leads. -/
theorem Settled.redirectRef_eq {raw : String} (h : e.Settled c scope raw) :
    e.redirectRef loader scope raw c = .ok (e.retarget (e.placeIn c) scope raw) c := by
  obtain ⟨link, hlink⟩ := h.reads
  have hknown := h.known
  unfold redirectRef retarget
  unfold leadsTo? at hknown ⊢
  rw [hlink] at hknown ⊢
  cases link with
  | keep => rfl
  | inside pointer =>
      cases scope with
      | none => rfl
      | some identity => exact target_eq_ok.mpr ⟨hknown identity pointer rfl, rfl, rfl⟩
  | outside url pointer =>
      have hsome := hknown _ pointer rfl
      exact Embedding.bind_eq_ok.mpr
        ⟨(), c, ensureEmbedded_known hsome, target_eq_ok.mpr ⟨hsome, rfl, rfl⟩⟩

/-! ### One reference after the other -/

/-- Reference texts are followed in order, each with the context the one before left. -/
inductive Follows (e : Embedder) (loader : Loader) (scope : Option String) :
    List String → List String → Context → Context → Prop
  | nil (c : Context) : Follows e loader scope [] [] c c
  | cons {raw text : String} {raws texts : List String} {c c₁ c' : Context}
      (first : e.redirectRef loader scope raw c = .ok text c₁)
      (rest : Follows e loader scope raws texts c₁ c') :
      Follows e loader scope (raw :: raws) (text :: texts) c c'

namespace Follows

variable {raws texts raws' texts' : List String} {c₁ : Context}

theorem length_eq (h : Follows e loader scope raws texts c c') :
    texts.length = raws.length := by
  induction h with
  | nil => rfl
  | cons _ _ ih => rw [List.length_cons, List.length_cons, ih]

theorem append (h : Follows e loader scope raws texts c c₁)
    (h' : Follows e loader scope raws' texts' c₁ c') :
    Follows e loader scope (raws ++ raws') (texts ++ texts') c c' := by
  induction h with
  | nil => exact h'
  | cons first _ ih => exact cons first (ih h')

/-- What every embedding of a document keeps, following references keeps. -/
theorem preserves {P : Context → Prop}
    (hstep : ∀ raw ∈ raws, ∀ url pointer, e.readLink raw = .ok (.outside url pointer) →
      ∀ {c c'}, P c → e.ensureEmbedded loader (Identity.resolve scope url) c = .ok () c' → P c')
    (h : Follows e loader scope raws texts c c') (hP : P c) : P c' := by
  induction h with
  | nil => exact hP
  | @cons raw text raws texts c c₁ c' first _ ih =>
      refine ih (fun r hr => hstep r (List.mem_cons_of_mem _ hr)) ?_
      rcases (redirectRef_ok first).1 with rfl | ⟨url, pointer, hlink, hembed⟩
      · exact hP
      · exact hstep raw List.mem_cons_self url pointer hlink hP hembed

end Follows

private theorem map_append_split {xs ys txs tys : List String} {f : String → String}
    (hlen : txs.length = xs.length) (h : txs ++ tys = (xs ++ ys).map f) :
    txs = xs.map f ∧ tys = ys.map f := by
  rw [List.map_append] at h
  exact List.append_inj h (by rw [hlen, List.length_map])

private theorem redirectItems_follows {items ws : List Json}
    (ih : ∀ item ∈ items, ∀ {w c c'}, e.redirect loader scope item c = .ok w c' →
      ∃ texts, Follows e loader scope item.refs texts c c' ∧
        ∀ f, texts = item.refs.map f → w = item.mapRefs f)
    (h : e.redirectItems loader scope items c = .ok ws c') :
    ∃ texts, Follows e loader scope (items.flatMap Json.refs) texts c c' ∧
      ∀ f, texts = (items.flatMap Json.refs).map f → ws = items.map (Json.mapRefs f) := by
  induction items generalizing ws c with
  | nil =>
      unfold redirectItems at h
      obtain ⟨rfl, rfl⟩ := Embedding.pure_eq_ok.mp h
      exact ⟨[], Follows.nil c, fun f _ => rfl⟩
  | cons item rest ihrest =>
      unfold redirectItems at h
      simp only [Embedding.bind_eq_ok, Embedding.pure_eq_ok] at h
      obtain ⟨w, c₁, hitem, ws', c₂, hrest, rfl, rfl⟩ := h
      obtain ⟨txs, hfollow, hw⟩ := ih item List.mem_cons_self hitem
      obtain ⟨tys, hfollow', hws⟩ :=
        ihrest (fun item h => ih item (List.mem_cons_of_mem _ h)) hrest
      refine ⟨txs ++ tys, hfollow.append hfollow', fun f hf => ?_⟩
      rw [List.flatMap_cons] at hf
      obtain ⟨hxs, hys⟩ := map_append_split hfollow.length_eq hf
      rw [List.map_cons, hw f hxs, hws f hys]

private theorem redirectMembers_follows {members ws : List (String × Json)}
    (ih : ∀ entry ∈ members, ∀ {w c c'}, e.redirect loader scope entry.2 c = .ok w c' →
      ∃ texts, Follows e loader scope entry.2.refs texts c c' ∧
        ∀ f, texts = entry.2.refs.map f → w = entry.2.mapRefs f)
    (h : e.redirectMembers loader scope members c = .ok ws c') :
    ∃ texts, Follows e loader scope
        (members.flatMap fun entry => Json.refsAt entry.1 entry.2) texts c c' ∧
      ∀ f, texts = (members.flatMap fun entry => Json.refsAt entry.1 entry.2).map f →
        ws = members.map fun entry => (entry.1, Json.mapRefsAt f entry.1 entry.2) := by
  induction members generalizing ws c with
  | nil =>
      unfold redirectMembers at h
      obtain ⟨rfl, rfl⟩ := Embedding.pure_eq_ok.mp h
      exact ⟨[], Follows.nil c, fun f _ => rfl⟩
  | cons entry rest ihrest =>
      obtain ⟨key, value⟩ := entry
      unfold redirectMembers at h
      -- a reference member is one text, any other member what its value holds
      have hmember : ∃ w c₁ ws', (∃ txs, Follows e loader scope (Json.refsAt key value) txs c c₁ ∧
          ∀ f, txs = (Json.refsAt key value).map f → w = Json.mapRefsAt f key value) ∧
          e.redirectMembers loader scope rest c₁ = .ok ws' c' ∧ ws = (key, w) :: ws' := by
        unfold Json.refsAt Json.mapRefsAt
        cases hraw : refText? key value with
        | some raw =>
            rw [hraw] at h
            simp only [Embedding.bind_eq_ok, Embedding.map_eq_ok, Embedding.pure_eq_ok] at h
            obtain ⟨w, c₁, ⟨text, htext, rfl⟩, ws', c₂, hrest, rfl, rfl⟩ := h
            refine ⟨_, c₁, ws', ⟨[text], Follows.cons htext (Follows.nil _), fun f hf => ?_⟩,
              hrest, rfl⟩
            rw [(List.cons.inj hf).1]
        | none =>
            rw [hraw] at h
            simp only [Embedding.bind_eq_ok, Embedding.pure_eq_ok] at h
            obtain ⟨w, c₁, hvalue, ws', c₂, hrest, rfl, rfl⟩ := h
            exact ⟨w, c₁, ws', ih _ List.mem_cons_self hvalue, hrest, rfl⟩
      obtain ⟨w, c₁, ws', ⟨txs, hfollow, hw⟩, hrest, rfl⟩ := hmember
      obtain ⟨tys, hfollow', hws⟩ :=
        ihrest (fun entry h => ih entry (List.mem_cons_of_mem _ h)) hrest
      refine ⟨txs ++ tys, hfollow.append hfollow', fun f hf => ?_⟩
      rw [List.flatMap_cons] at hf
      obtain ⟨hxs, hys⟩ := map_append_split hfollow.length_eq hf
      rw [List.map_cons, hw f hxs, hws f hys]

/-- **Redirecting a value follows its references in order and changes their texts.** -/
theorem redirect_follows {v w : Json} (h : e.redirect loader scope v c = .ok w c') :
    ∃ texts, Follows e loader scope v.refs texts c c' ∧
      ∀ f, texts = v.refs.map f → w = v.mapRefs f := by
  induction v generalizing w c c' with
  | null | bool _ | number _ | string _ =>
      unfold redirect at h
      obtain ⟨rfl, rfl⟩ := Embedding.pure_eq_ok.mp h
      exact ⟨[], Follows.nil _, fun f _ => rfl⟩
  | array items ih =>
      unfold redirect at h
      simp only [Embedding.bind_eq_ok, Embedding.pure_eq_ok] at h
      obtain ⟨ws, c₁, hitems, rfl, rfl⟩ := h
      simp only [Json.refs_array, Json.mapRefs_array, Json.array.injEq]
      exact redirectItems_follows (fun item h => ih item h) hitems
  | object members ih =>
      unfold redirect at h
      simp only [Embedding.bind_eq_ok, Embedding.pure_eq_ok] at h
      obtain ⟨ws, c₁, hmembers, rfl, rfl⟩ := h
      simp only [Json.refs_object, Json.mapRefs_object, Json.object.injEq]
      exact redirectMembers_follows (fun entry h => ih entry h) hmembers

/-- **Where every reference is followed without a change of the context**, a value is
redirected without one. -/
theorem redirect_of_refs {v : Json} {f : String → String}
    (h : ∀ raw ∈ v.refs, e.redirectRef loader scope raw c = .ok (f raw) c) :
    e.redirect loader scope v c = .ok (v.mapRefs f) c := by
  induction v with
  | null | bool _ | number _ | string _ =>
      unfold redirect
      rfl
  | array items ih =>
      rw [Json.refs_array] at h
      have hitems : e.redirectItems loader scope items c = .ok (items.map (Json.mapRefs f)) c := by
        induction items with
        | nil =>
            unfold redirectItems
            rfl
        | cons item rest ihrest =>
            rw [List.flatMap_cons] at h
            have hitem := ih item List.mem_cons_self fun raw hraw =>
              h raw (List.mem_append_left _ hraw)
            have hrest := ihrest (fun other hother => ih other (List.mem_cons_of_mem _ hother))
              fun raw hraw => h raw (List.mem_append_right _ hraw)
            unfold redirectItems
            simp only [Embedding.bind_eq_ok, Embedding.pure_eq_ok]
            exact ⟨_, _, hitem, _, _, hrest, rfl, rfl⟩
      unfold redirect
      simp only [Embedding.bind_eq_ok, Embedding.pure_eq_ok, Json.mapRefs_array]
      exact ⟨_, _, hitems, rfl, rfl⟩
  | object members ih =>
      rw [Json.refs_object] at h
      have hmembers : e.redirectMembers loader scope members c =
          .ok (members.map fun entry => (entry.1, Json.mapRefsAt f entry.1 entry.2)) c := by
        induction members with
        | nil =>
            unfold redirectMembers
            rfl
        | cons entry rest ihrest =>
            obtain ⟨key, value⟩ := entry
            rw [List.flatMap_cons] at h
            have hrest := ihrest (fun other hother => ih other (List.mem_cons_of_mem _ hother))
              fun raw hraw => h raw (List.mem_append_right _ hraw)
            have hfirst : ∀ raw ∈ Json.refsAt key value,
                e.redirectRef loader scope raw c = .ok (f raw) c :=
              fun raw hraw => h raw (List.mem_append_left _ hraw)
            rw [List.map_cons]
            unfold redirectMembers
            unfold Json.refsAt at hfirst
            unfold Json.mapRefsAt
            cases htext : refText? key value with
            | some raw =>
                rw [htext] at hfirst
                simp only [Embedding.bind_eq_ok, Embedding.map_eq_ok, Embedding.pure_eq_ok]
                exact ⟨_, _, ⟨_, hfirst raw (List.mem_singleton.mpr rfl), rfl⟩, _, _, hrest, rfl,
                  rfl⟩
            | none =>
                rw [htext] at hfirst
                simp only [Embedding.bind_eq_ok, Embedding.pure_eq_ok]
                exact ⟨_, _, ih _ List.mem_cons_self hfirst, _, _, hrest, rfl, rfl⟩
      unfold redirect
      simp only [Embedding.bind_eq_ok, Embedding.pure_eq_ok, Json.mapRefs_object]
      exact ⟨_, _, hmembers, rfl, rfl⟩

end Embedder

end SchemaBundle
