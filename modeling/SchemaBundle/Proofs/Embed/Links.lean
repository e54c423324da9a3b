/-
Ordinary links never affect an embedding.

The root with a link and the root without it are redirected side by side.  Following the
link does nothing, so both are in the same context after every reference, and what comes
out differs by the link again.  The rest of the run does not look at the root at all until
the definitions are put in.  That last step looks at the mount path only, so it treats both
in the same way unless the link stands on that path, or at its end, where its key counts as
the name of a definition.
-/
import SchemaBundle.Proofs.Embed.Frame

namespace SchemaBundle

open Pointer MountPath
open Reference (documentPart placePart)

variable {raw : String} {p q : Pointer} {v w : Json}

/-! ### A value without one of its links -/

/-- The second value is the first without the reference member that stands in the object
at the pointer. -/
inductive Json.Without (raw : String) : Pointer → Json → Json → Prop
  | link (front back : List (String × Json)) :
      Without raw [] (.object (front ++ ("$ref", .string raw) :: back)) (.object (front ++ back))
  | member (front back : List (String × Json)) (key : String) {p : Pointer} {v w : Json}
      (h : Without raw p v w) :
      Without raw (key :: p) (.object (front ++ (key, v) :: back))
        (.object (front ++ (key, w) :: back))
  | item (front back : List Json) {segment : String} {p : Pointer} {v w : Json}
      (hindex : arrayIndex? segment = some front.length) (h : Without raw p v w) :
      Without raw (segment :: p) (.array (front ++ v :: back)) (.array (front ++ w :: back))

namespace Json.Without

/-- Every reference member can be left out. -/
theorem exists_of_resolve? (h : resolve? v (p ++ ["$ref"]) = some (.string raw)) :
    ∃ w, Without raw p v w := by
  induction p generalizing v with
  | nil =>
      cases v with
      | object members =>
          rw [List.nil_append, resolve?_object] at h
          obtain ⟨u, hget, hu⟩ := Option.bind_eq_some_iff.mp h
          rw [resolve?_nil, Option.some.injEq] at hu
          obtain ⟨front, back, rfl⟩ := List.append_of_mem (Entries.mem_of_get? hget)
          exact ⟨_, hu ▸ link front back⟩
      | array items => simp [resolve?, step?, arrayIndex?_ref] at h
      | null | bool _ | number _ | string _ => simp [resolve?, step?] at h
  | cons segment rest ih =>
      rw [List.cons_append, resolve?_cons] at h
      obtain ⟨next, hstep, hrest⟩ := Option.bind_eq_some_iff.mp h
      obtain ⟨w, hw⟩ := ih hrest
      cases v with
      | object members =>
          obtain ⟨front, back, rfl⟩ := List.append_of_mem (Entries.mem_of_get? hstep)
          exact ⟨_, member front back segment hw⟩
      | array items =>
          obtain ⟨index, hindex, hitem⟩ := Option.bind_eq_some_iff.mp hstep
          obtain ⟨hlt, rfl⟩ := List.getElem?_eq_some_iff.mp hitem
          have hsplit : items = items.take index ++ items[index] :: items.drop (index + 1) := by
            rw [List.getElem_cons_drop, List.take_append_drop]
          have hlength : (items.take index).length = index := by
            rw [List.length_take, Nat.min_eq_left (Nat.le_of_lt hlt)]
          rw [hsplit]
          exact ⟨_, item _ _ (hlength.symm ▸ hindex) hw⟩
      | null | bool _ | number _ | string _ => simp [step?] at hstep

/-- Neither value is a text. -/
theorem refText?_eq_none (h : Without raw p v w) (key : String) :
    refText? key v = none ∧ refText? key w = none := by
  unfold refText?
  cases h with
  | link front back => simp [string?]
  | member front back key h => simp [string?]
  | item front back hindex h => simp [string?]

theorem isObject_eq (h : Without raw p v w) : v.isObject = w.isObject := by
  cases h with
  | link front back => rfl
  | member front back key h => rfl
  | item front back hindex h => rfl

end Json.Without

/-! ### Two computations side by side -/

namespace Embedding

variable {α β γ δ : Type} {R : α → β → Prop} {S : γ → δ → Prop} {x : Embedding α}
  {y : Embedding β}

/-- From the same context two computations end in the same context, both with results,
which are related, or both with the same error. -/
def Parallel (R : α → β → Prop) (x : Embedding α) (y : Embedding β) : Prop :=
  ∀ c, match x c, y c with
    | .ok a c₁, .ok b c₂ => R a b ∧ c₁ = c₂
    | .error failure c₁, .error failure' c₂ => failure = failure' ∧ c₁ = c₂
    | _, _ => False

theorem Parallel.refl (x : Embedding α) : Parallel Eq x x := by
  intro c
  cases x c with
  | ok a c₁ => exact ⟨rfl, rfl⟩
  | error failure c₁ => exact ⟨rfl, rfl⟩

theorem parallel_pure {a : α} {b : β} (h : R a b) : Parallel R (pure a) (pure b) :=
  fun _ => ⟨h, rfl⟩

theorem Parallel.bind {f : α → Embedding γ} {g : β → Embedding δ} (h : Parallel R x y)
    (hrest : ∀ a b, R a b → Parallel S (f a) (g b)) : Parallel S (x >>= f) (y >>= g) := by
  intro c
  have hc := h c
  show match EStateM.bind x f c, EStateM.bind y g c with
    | .ok a c₁, .ok b c₂ => S a b ∧ c₁ = c₂
    | .error failure c₁, .error failure' c₂ => failure = failure' ∧ c₁ = c₂
    | _, _ => False
  unfold EStateM.bind
  cases hx : x c with
  | ok a c₁ =>
      cases hy : y c with
      | ok b c₂ =>
          rw [hx, hy] at hc
          obtain ⟨hab, rfl⟩ := hc
          exact hrest a b hab c₁
      | error failure c₂ => rw [hx, hy] at hc; exact hc.elim
  | error failure c₁ =>
      cases hy : y c with
      | ok b c₂ => rw [hx, hy] at hc; exact hc.elim
      | error failure' c₂ => rw [hx, hy] at hc; exact hc

/-- What one computation ends with, the other does. -/
theorem Parallel.right_ok {c c' : Context} {a : α} (h : Parallel R x y) (hx : x c = .ok a c') :
    ∃ b, y c = .ok b c' ∧ R a b := by
  have hc := h c
  rw [hx] at hc
  cases hy : y c with
  | ok b c₂ =>
      rw [hy] at hc
      obtain ⟨hab, rfl⟩ := hc
      exact ⟨b, rfl, hab⟩
  | error failure c₂ => rw [hy] at hc; exact hc.elim

theorem Parallel.left_ok {c c' : Context} {b : β} (h : Parallel R x y) (hy : y c = .ok b c') :
    ∃ a, x c = .ok a c' ∧ R a b := by
  have hc := h c
  rw [hy] at hc
  cases hx : x c with
  | ok a c₁ =>
      rw [hx] at hc
      obtain ⟨hab, rfl⟩ := hc
      exact ⟨a, rfl, hab⟩
  | error failure c₁ => rw [hx] at hc; exact hc.elim

end Embedding

/-- Two results are there or not together, and what is there is related. -/
def Together {ε α β : Type} (R : α → β → Prop) : Except ε α → Except ε β → Prop
  | .ok a, .ok b => R a b
  | .error _, .error _ => True
  | _, _ => False

namespace Together

variable {ε α β γ δ : Type} {R : α → β → Prop} {S : γ → δ → Prop} {x : Except ε α}
  {y : Except ε β} {a : α} {b : β}

theorem refl (x : Except ε α) : Together Eq x x := by
  cases x with
  | ok a => exact rfl
  | error error => trivial

theorem map {f : α → γ} {g : β → δ} (h : Together R x y)
    (hrest : ∀ a b, R a b → S (f a) (g b)) : Together S (x.map f) (y.map g) := by
  cases x with
  | ok a =>
      cases y with
      | ok b => exact hrest a b h
      | error error => exact h.elim
  | error error =>
      cases y with
      | ok b => exact h.elim
      | error error' => trivial

theorem right_ok (h : Together R (.ok a) y) : ∃ b, y = .ok b ∧ R a b := by
  cases y with
  | ok b => exact ⟨b, rfl, h⟩
  | error error => exact h.elim

theorem left_ok (h : Together R x (.ok b)) : ∃ a, x = .ok a ∧ R a b := by
  cases x with
  | ok a => exact ⟨a, rfl, h⟩
  | error error => exact h.elim

end Together

namespace Embedder

open SchemaBundle.Embedding (Parallel parallel_pure)
open Json (Without)

variable {e : Embedder} {loader : Loader} {scope : Option String} {root less : Json} {steps : Nat}
  {c : Context}

/-! ### Redirecting with and without a link -/

theorem redirectMembers_front {xs ys front : List (String × Json)}
    {S : List (String × Json) → List (String × Json) → Prop}
    (h : Parallel S (e.redirectMembers loader scope xs) (e.redirectMembers loader scope ys)) :
    Parallel (fun vs ws => ∃ front' vs' ws', vs = front' ++ vs' ∧ ws = front' ++ ws' ∧ S vs' ws')
      (e.redirectMembers loader scope (front ++ xs))
      (e.redirectMembers loader scope (front ++ ys)) := by
  induction front with
  | nil =>
      have hpure := h.bind (S := fun vs ws => ∃ front' vs' ws', vs = front' ++ vs' ∧
        ws = front' ++ ws' ∧ S vs' ws') (f := pure) (g := pure)
        fun vs ws hS => parallel_pure ⟨[], vs, ws, rfl, rfl, hS⟩
      rwa [bind_pure, bind_pure] at hpure
  | cons first rest ih =>
      obtain ⟨key, value⟩ := first
      rw [List.cons_append, List.cons_append]
      unfold redirectMembers
      have hrest : ∀ a b, a = b → Parallel (fun vs ws => ∃ front' vs' ws',
          vs = front' ++ vs' ∧ ws = front' ++ ws' ∧ S vs' ws')
          (e.redirectMembers loader scope (rest ++ xs) >>= fun rest => pure ((key, a) :: rest))
          (e.redirectMembers loader scope (rest ++ ys) >>= fun rest => pure ((key, b) :: rest)) := by
        rintro a b rfl
        refine ih.bind fun vs ws hvs => ?_
        obtain ⟨front', vs', ws', rfl, rfl, hS⟩ := hvs
        exact parallel_pure ⟨(key, a) :: front', vs', ws', rfl, rfl, hS⟩
      cases refText? key value with
      | some raw => exact (Parallel.refl _).bind hrest
      | none => exact (Parallel.refl _).bind hrest

theorem redirectItems_front {xs ys front : List Json} {S : List Json → List Json → Prop}
    (h : Parallel S (e.redirectItems loader scope xs) (e.redirectItems loader scope ys)) :
    Parallel (fun vs ws => ∃ front' vs' ws', front'.length = front.length ∧ vs = front' ++ vs' ∧
        ws = front' ++ ws' ∧ S vs' ws')
      (e.redirectItems loader scope (front ++ xs)) (e.redirectItems loader scope (front ++ ys)) := by
  induction front with
  | nil =>
      have hpure := h.bind (S := fun vs ws => ∃ front' vs' ws', front'.length = 0 ∧
        vs = front' ++ vs' ∧ ws = front' ++ ws' ∧ S vs' ws') (f := pure) (g := pure)
        fun vs ws hS => parallel_pure ⟨[], vs, ws, rfl, rfl, rfl, hS⟩
      rwa [bind_pure, bind_pure] at hpure
  | cons first rest ih =>
      rw [List.cons_append, List.cons_append]
      unfold redirectItems
      refine (Parallel.refl _).bind fun a b hab => ih.bind fun vs ws hvs => ?_
      subst hab
      obtain ⟨front', vs', ws', hlength, rfl, rfl, hS⟩ := hvs
      exact parallel_pure ⟨a :: front', vs', ws', by simp [hlength], rfl, rfl, hS⟩

/-- Following a link changes nothing and gives the text back. -/
theorem redirectRef_keep (hkeep : e.readLink raw = .ok .keep) :
    e.redirectRef loader scope raw = pure raw := by
  unfold redirectRef
  rw [hkeep]

/-- **With a link and without it, redirecting goes the same way**, and the results differ
by the link. -/
theorem redirect_without (hkeep : e.readLink raw = .ok .keep) (h : Without raw p v w) :
    Parallel (Without raw p) (e.redirect loader scope v) (e.redirect loader scope w) := by
  induction h with
  | link front back =>
      have htail : Parallel (fun vs ws => vs = ("$ref", Json.string raw) :: ws)
          (e.redirectMembers loader scope (("$ref", .string raw) :: back))
          (e.redirectMembers loader scope back) := by
        have hlink : e.redirectMembers loader scope (("$ref", .string raw) :: back) =
            e.redirectMembers loader scope back >>= fun rest =>
              pure (("$ref", Json.string raw) :: rest) := by
          rw [redirectMembers]
          simp [refText?, Json.string?, redirectRef_keep hkeep]
        have hpure := (Parallel.refl (e.redirectMembers loader scope back)).bind
          (S := fun vs ws => vs = ("$ref", Json.string raw) :: ws)
          (f := fun rest => pure (("$ref", Json.string raw) :: rest)) (g := pure)
          fun vs ws heq => parallel_pure (by rw [heq])
        rwa [bind_pure, ← hlink] at hpure
      unfold redirect
      refine (redirectMembers_front htail).bind fun vs ws hvs => ?_
      obtain ⟨front', vs', ws', rfl, rfl, rfl⟩ := hvs
      exact parallel_pure (Without.link front' ws')
  | member front back key h ih =>
      rename_i p v w
      have htail : Parallel (fun vs ws => ∃ v' w' back', vs = (key, v') :: back' ∧
            ws = (key, w') :: back' ∧ Without raw p v' w')
          (e.redirectMembers loader scope ((key, v) :: back))
          (e.redirectMembers loader scope ((key, w) :: back)) := by
        unfold redirectMembers
        rw [(h.refText?_eq_none key).1, (h.refText?_eq_none key).2]
        refine ih.bind fun v' w' hvw => (Parallel.refl _).bind fun back' back'' hback => ?_
        subst hback
        exact parallel_pure ⟨v', w', back', rfl, rfl, hvw⟩
      unfold redirect
      refine (redirectMembers_front htail).bind fun vs ws hvs => ?_
      obtain ⟨front', _, _, rfl, rfl, v', w', back', rfl, rfl, hvw⟩ := hvs
      exact parallel_pure (Without.member front' back' key hvw)
  | item front back hindex h ih =>
      rename_i segment p v w
      have htail : Parallel (fun vs ws => ∃ v' w' back', vs = v' :: back' ∧ ws = w' :: back' ∧
            Without raw p v' w')
          (e.redirectItems loader scope (v :: back)) (e.redirectItems loader scope (w :: back)) := by
        unfold redirectItems
        refine ih.bind fun v' w' hvw => (Parallel.refl _).bind fun back' back'' hback => ?_
        subst hback
        exact parallel_pure ⟨v', w', back', rfl, rfl, hvw⟩
      unfold redirect
      refine (redirectItems_front htail).bind fun vs ws hvs => ?_
      obtain ⟨front', _, _, hlength, rfl, rfl, v', w', back', rfl, rfl, hvw⟩ := hvs
      exact parallel_pure (Without.item front' back' (hlength ▸ hindex) hvw)

theorem traverse_without (hkeep : e.readLink raw = .ok .keep) (h : Without raw p root less) :
    Parallel (Option.Rel (Without raw p)) (e.traverse loader steps root)
      (e.traverse loader steps less) := by
  unfold traverse
  refine (redirect_without hkeep h).bind fun v w hvw => (Parallel.refl _).bind fun a b hab => ?_
  subst hab
  cases a with
  | true => exact parallel_pure (Option.Rel.some hvw)
  | false => exact parallel_pure Option.Rel.none

/-! ### The mount path with and without a link -/

/-- On the way to a place there are objects only, as far as there is anything. -/
def Passes (v : Json) (q : Pointer) : Prop :=
  ∀ t, t <+: q → ∀ u, resolve? v t = some u → ∃ members, u = .object members

theorem Passes.below {members : List (String × Json)} {key : String} {next : Json}
    (h : Passes (.object members) (key :: q)) (hget : Entries.get? members key = some next) :
    Passes next q := by
  intro t ht u hu
  refine h (key :: t) (List.cons_prefix_cons.mpr ⟨rfl, ht⟩) u ?_
  rw [resolve?_object, hget, Option.bind_some, hu]

theorem Passes.isObject (h : Passes v q) : v.isObject = true := by
  obtain ⟨members, rfl⟩ := h [] List.nil_prefix v (resolve?_nil v)
  rfl

/-- What stands at a place that is reached through objects is the same in both, or differs
by the link. -/
theorem resolve?_without (h : Without raw p v w) (hv : v.Ordered) (hq : p ≠ q)
    (hlink : ¬ p ++ ["$ref"] <+: q) (hpasses : Passes v q ∨ Passes w q) :
    resolve? v q = resolve? w q ∨ ∃ a b segment rest, resolve? v q = some a ∧
      resolve? w q = some b ∧ Without raw (segment :: rest) a b := by
  induction h generalizing q with
  | link front back =>
      cases q with
      | nil => exact absurd rfl hq
      | cons first q =>
          have hne : first ≠ "$ref" := by
            rintro rfl
            exact hlink (by simp)
          rw [resolve?_object, resolve?_object, Entries.get?_beside hne]
          exact Or.inl rfl
  | member front back key h ih =>
      rename_i p v w
      have hold := hv.sorted.get?_at
      have hnew := (hv.sorted.set w).get?_at
      cases q with
      | nil =>
          exact Or.inr ⟨_, _, key, p, resolve?_nil _, resolve?_nil _,
            Without.member front back key h⟩
      | cons first q =>
          rw [resolve?_object, resolve?_object]
          by_cases hfirst : first = key
          · subst hfirst
            rw [hold, hnew, Option.bind_some, Option.bind_some]
            refine ih (hv.of_get? hold) (fun heq => hq (by rw [heq])) (fun hc => hlink ?_) ?_
            · exact List.cons_prefix_cons.mpr ⟨rfl, hc⟩
            · exact hpasses.imp (fun hp => hp.below hold) fun hp => hp.below hnew
          · rw [Entries.get?_beside hfirst, Entries.get?_beside hfirst]
            exact Or.inl rfl
  | item front back hindex h ih =>
      cases q with
      | nil =>
          exact Or.inr ⟨_, _, _, _, resolve?_nil _, resolve?_nil _,
            Without.item front back hindex h⟩
      | cons first q =>
          -- the way leads through an array, which it does not
          rcases hpasses with hp | hp
          · obtain ⟨members, hmembers⟩ := hp [] List.nil_prefix _ (resolve?_nil _)
            simp at hmembers
          · obtain ⟨members, hmembers⟩ := hp [] List.nil_prefix _ (resolve?_nil _)
            simp at hmembers

theorem existingNames_without (h : Without raw p v w) (hv : v.Ordered) (hnode : p ≠ e.mount.segments)
    (hlink : ¬ p ++ ["$ref"] <+: e.mount.segments)
    (hpasses : Passes v e.mount.segments ∨ Passes w e.mount.segments) :
    e.existingNames v = e.existingNames w := by
  unfold existingNames
  rcases resolve?_without h hv hnode hlink hpasses with heq | ⟨a, b, segment, rest, ha, hb, hab⟩
  · rw [heq]
  · rw [ha, hb]
    cases hab with
    | member front back key h => simp [Entries.keys]
    | item front back hindex h => rfl

/-- Putting definitions in works the same way with the link and without it. -/
theorem addAt_without {mount : MountPath} {additions : List (String × Json)} {path : Pointer}
    (h : Without raw p v w) (hv : v.Ordered) (hnode : p ≠ path)
    (hlink : ¬ p ++ ["$ref"] <+: path)
    (hnew : ∀ key ∈ Entries.keys additions, key ∉ Entries.keys (nodeMembers v path)) :
    Together (Without raw p) (addAt mount additions path v) (addAt mount additions path w) := by
  induction path generalizing v w p with
  | nil =>
      cases h with
      | link front back => exact absurd rfl hnode
      | item front back hindex h => trivial
      | member front back key h =>
          rename_i p v w
          have hkey : key ∉ Entries.keys additions := by
            intro hmem
            refine hnew key hmem ?_
            show key ∈ Entries.keys (front ++ (key, v) :: back)
            simp [Entries.keys]
          obtain ⟨front', back', hall⟩ := hv.sorted.insertAll_beside hkey
          unfold addAt
          simp only [hall]
          exact Without.member front' back' key h
  | cons segment path ih =>
      cases h with
      | item front back hindex h => trivial
      | link front back =>
          have hne : segment ≠ "$ref" := by
            rintro rfl
            exact hlink (by simp)
          rw [addAt_object, addAt_object, Entries.get?_beside hne]
          refine (Together.refl _).map fun child _ heq => ?_
          subst heq
          obtain ⟨front', back', hall, hmissing⟩ := hv.sorted.insert_beside hne child
          rw [hall, hmissing]
          exact Without.link front' back'
      | member front back key h =>
          rename_i p v w
          rw [addAt_object, addAt_object]
          by_cases hsegment : segment = key
          · -- the link is further down on this way
            subst hsegment
            have hold := hv.sorted.get?_at
            rw [hold, (hv.sorted.set w).get?_at, Option.getD_some, Option.getD_some]
            rw [nodeMembers_cons, hold, Option.getD_some] at hnew
            refine (ih h (hv.of_get? hold) (fun heq => hnode (by rw [heq]))
              (fun hc => hlink (List.cons_prefix_cons.mpr ⟨rfl, hc⟩)) hnew).map fun a b hab => ?_
            rw [hv.sorted.insert_at, (hv.sorted.set w).insert_at]
            exact Without.member front back segment hab
          · rw [Entries.get?_beside hsegment, Entries.get?_beside hsegment]
            refine (Together.refl _).map fun child _ heq => ?_
            subst heq
            obtain ⟨front', back', hall, -⟩ := hv.sorted.insert_beside hsegment child
            rw [hall v, hall w]
            exact Without.member front' back' key h

/-! ### Runs with and without a link -/

theorem run_eq {existing : List String} {out : Embedded} (hobject : root.isObject = true)
    (hexisting : e.existingNames root = .ok existing)
    (htraverse : e.traverse loader steps root
      (Context.start e.maxSuffix (e.reserved ++ existing)) = .ok (some v) c)
    (hfinish : e.finish c v = .ok out) :
    e.run loader steps root = ⟨c.loaded, .done out⟩ := by
  unfold run
  simp only [hobject, hexisting, htraverse, hfinish, Bool.not_true, Bool.false_eq_true, if_false,
    Outcome.ofExcept]

/-- After two runs side by side the definitions are put in, or not, in both. -/
theorem finish_without {existing : List String} (hroot : root.Ordered)
    (hexisting : e.existingNames root = .ok existing)
    (htraverse : e.traverse loader steps root
      (Context.start e.maxSuffix (e.reserved ++ existing)) = .ok (some v) c)
    (h : Without raw p v w) (hnode : p ≠ e.mount.segments)
    (hpath : ¬ p ++ ["$ref"] <+: e.mount.segments) :
    Together (fun a b => Without raw p a.document b.document ∧
      b = { a with document := b.document }) (e.finish c v) (e.finish c w) := by
  obtain ⟨H, hholds, -, -, hdone⟩ := traverse_done htraverse
  -- no name that was given stands at the node already
  have hnew : ∀ key ∈ Entries.keys c.definitions.entries,
      key ∉ Entries.keys (nodeMembers v e.mount.segments) := by
    intro key hkey hmem
    have hgiven : key ∈ (H.flatMap Record.pieces).map Piece.name :=
      (hholds.keeps.stored.contains key).mp (Entries.isSome_get?_iff.mpr hkey)
    refine hholds.keeps.stored.apart key hgiven (List.mem_append_right _ ?_)
    rwa [hdone.eq, keys_nodeMembers_mapRefs, ← existingNames_ok hexisting] at hmem
  have hv : v.Ordered := hdone.eq ▸ hroot.mapRefs _
  exact (addAt_without h hv hnode hpath hnew).map fun a b hab => ⟨hab, rfl⟩

/-- **Ordinary links never affect an embedding.** Without one of them the run loads the
same documents and gives the same names and definitions, and the root differs by the link,
which stands in it as it was written. -/
theorem run_ignores_link (hroot : root.Ordered)
    (hlink : resolve? root (p ++ ["$ref"]) = some (.string raw)) (hnamed : documentPart raw ≠ "")
    (hkind : e.classify (documentPart raw) = .link) {pointer : Pointer}
    (hparse : Pointer.parse (placePart raw) = .ok pointer) (hnode : p ≠ e.mount.segments)
    (hpath : ¬ p ++ ["$ref"] <+: e.mount.segments) :
    (∃ less, Without raw p root less) ∧
      ∀ less, Without raw p root less →
        (∀ out, (e.run loader steps root).outcome = .done out →
          resolve? out.document (p ++ ["$ref"]) = some (.string raw) ∧
            ∃ document, Without raw p out.document document ∧
              e.run loader steps less =
                ⟨(e.run loader steps root).loaded, .done { out with document }⟩) ∧
        ∀ out, (e.run loader steps less).outcome = .done out →
          ∃ out', (e.run loader steps root).outcome = .done out' := by
  have hkeep : e.readLink raw = .ok .keep := readLink_keep hnamed hkind hparse
  refine ⟨Without.exists_of_resolve? hlink, fun less hless => ⟨fun out h => ?_, fun out h => ?_⟩⟩
  · obtain ⟨existing, v, hexisting, htraverse, hfinish, hloaded⟩ := run_done h
    obtain ⟨-, _, _, hfin⟩ := finished_of_run h
    have hpasses : Passes root e.mount.segments := fun t ht => (hfin.above ht).2
    have hsame := existingNames_without hless hroot hnode hpath (Or.inl hpasses)
    obtain ⟨found, htraverse', hrel⟩ := (traverse_without hkeep hless).right_ok htraverse
    cases hrel with
    | @some _ w hvw =>
        have hfinish' := finish_without hroot hexisting htraverse hvw hnode hpath
        rw [hfinish] at hfinish'
        obtain ⟨out', hw, hdocument, hout⟩ := hfinish'.right_ok
        have hold : resolve? out.document (p ++ ["$ref"]) = some (.string raw) := by
          have hstays := hfin.stays hlink (by simp)
          rwa [mapRefsEnd_ref, rootText, retarget, leadsTo?, hkeep] at hstays
        refine ⟨hold, out'.document, hdocument, ?_⟩
        rw [hloaded, ← hout]
        exact run_eq (hless.isObject_eq ▸ hpasses.isObject) (hsame ▸ hexisting) htraverse' hw
  · obtain ⟨existing, w, hexisting, htraverse, hfinish, -⟩ := run_done h
    obtain ⟨-, _, _, hfin⟩ := finished_of_run h
    have hpasses : Passes less e.mount.segments := fun t ht => (hfin.above ht).2
    have hsame := existingNames_without hless hroot hnode hpath (Or.inr hpasses)
    obtain ⟨found, htraverse', hrel⟩ := (traverse_without hkeep hless).left_ok htraverse
    cases hrel with
    | @some v _ hvw =>
        have hfinish' := finish_without hroot (hsame ▸ hexisting) htraverse' hvw hnode hpath
        rw [hfinish] at hfinish'
        obtain ⟨out', hv, -⟩ := hfinish'.left_ok
        rw [run_eq (hless.isObject_eq ▸ hpasses.isObject) (hsame ▸ hexisting) htraverse' hv]
        exact ⟨out', rfl⟩

/-- The root of the twins, with something beside its definitions. -/
def annotatedRoot (docs : List (String × Json)) : Json :=
  .object [("$ref", .string "a.json"), ("definitions", .object [("Size", .null)]),
    ("docs", .object docs)]

theorem run_ignores_link_twins :
    ∃ out document,
      (standard.runOn twins (annotatedRoot [("$ref", .string "https://sda.se/#/docs")])).outcome =
          .done out ∧
        Without "https://sda.se/#/docs" ["docs"] out.document document ∧
        (standard.runOn twins (annotatedRoot [])).outcome = .done { out with document } := by
  obtain ⟨out, h, -⟩ := Outcome.done_of_check
    (standard.runOn twins (annotatedRoot [("$ref", .string "https://sda.se/#/docs")])).outcome
    (fun _ => true) (by decide +kernel)
  have hordered : (annotatedRoot [("$ref", .string "https://sda.se/#/docs")]).Ordered := by
    simp only [annotatedRoot, List.forall_mem_cons, List.not_mem_nil, false_implies, implies_true,
      Json.ordered_object, Json.Ordered.string, Json.Ordered.null]
    decide +kernel
  have hkind : standard.classify (documentPart "https://sda.se/#/docs") = .link := by
    decide +kernel
  have hparse : Pointer.parse (placePart "https://sda.se/#/docs") = .ok ["docs"] := by
    decide +kernel
  have hless : Without "https://sda.se/#/docs" ["docs"]
      (annotatedRoot [("$ref", .string "https://sda.se/#/docs")]) (annotatedRoot []) :=
    Without.member [("$ref", _), ("definitions", _)] [] "docs" (Without.link [] [])
  obtain ⟨-, hall⟩ := run_ignores_link hordered (p := ["docs"]) rfl (by decide +kernel) hkind
    hparse (by decide) (by decide)
  obtain ⟨-, document, hdocument, hrun⟩ := (hall _ hless).1 out h
  exact ⟨out, document, h, hdocument, congrArg Report.outcome hrun⟩

/-! ### Links in the way -/

/-- A document with a definition under the key `$ref`. -/
def oddKey : List (String × Json) :=
  [("a.json", .object [("definitions", .object [("$ref", .null)])])]

/-- A root with the given members in its node. -/
def rootOver (node : List (String × Json)) : Json :=
  .object [("definitions", .object node), ("x", .object [("$ref", .string "a.json")])]

/-- **Where a link is not ignored.** On the mount path it is no object, so that nothing can
be put in; in the node, its key is a name that is taken. -/
theorem link_in_the_way :
    (({ standard with mount := .atRoot "$ref" } : Embedder).runOn []
        (.object [("$ref", .string "https://sda.se")])).outcome =
      .failed (.invalidDocument (.mountTaken "/$ref")) ∧
    (∃ out, (({ standard with mount := .atRoot "$ref" } : Embedder).runOn []
        (.object [])).outcome = .done out) ∧
    Without "https://sda.se" [] (.object [("$ref", .string "https://sda.se")]) (.object []) ∧
    (∃ out, (standard.runOn oddKey (rootOver [("$ref", .string "https://sda.se")])).outcome =
      .done out ∧ out.definitions.order = ["a", "$ref2"]) ∧
    (∃ out, (standard.runOn oddKey (rootOver [])).outcome =
      .done out ∧ out.definitions.order = ["a", "$ref"]) ∧
    Without "https://sda.se" ["definitions"] (rootOver [("$ref", .string "https://sda.se")])
      (rootOver []) := by
  refine ⟨rfl, ?_, Without.link [] [], ?_, ?_, Without.member [] _ _ (Without.link [] [])⟩
  · obtain ⟨out, hout, -⟩ := Outcome.done_of_check
      (({ standard with mount := .atRoot "$ref" } : Embedder).runOn [] (.object [])).outcome
      (fun _ => true) (by decide +kernel)
    exact ⟨out, hout⟩
  · obtain ⟨out, hout, hnames⟩ := Outcome.done_of_check
      (standard.runOn oddKey (rootOver [("$ref", .string "https://sda.se")])).outcome
      (fun out => out.definitions.order == ["a", "$ref2"]) (by decide +kernel)
    exact ⟨out, hout, by simpa using hnames⟩
  · obtain ⟨out, hout, hnames⟩ := Outcome.done_of_check
      (standard.runOn oddKey (rootOver [])).outcome
      (fun out => out.definitions.order == ["a", "$ref"]) (by decide +kernel)
    exact ⟨out, hout, by simpa using hnames⟩

end Embedder

end SchemaBundle
