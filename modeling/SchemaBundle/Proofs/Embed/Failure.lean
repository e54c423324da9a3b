/-
Where a run fails.

A run stops at the first error, and everything before it has succeeded.  So an error can be
traced back to the one thing that went wrong, together with the context in which it did: a
run fails at one of its pieces, a piece at one of its references, a reference because it
cannot be read or because its document cannot be embedded, and a document because it cannot
be had or because a name cannot be given.

These are the counterparts of what is said of results elsewhere, and they are put together in
the same order.
-/
import SchemaBundle.Proofs.Embed.Run

namespace SchemaBundle

variable {e : Embedder} {loader : Loader} {scope : Option String} {identity : String}
  {c c' : Context} {error : Error}

/-! ### Giving names -/

/-- Of several definitions, the first that gets no name comes after others that did. -/
theorem Embedding.hoistAll_error {shared : List (String × String)}
    {definitions : List (String × Json)}
    (h : Embedding.hoistAll identity shared definitions c = .error error c') :
    ∃ front key content back names c₁, definitions = front ++ (key, content) :: back ∧
      Embedding.hoistAll identity shared front c = .ok names c₁ ∧
      Embedding.hoistOne identity shared key content c₁ = .error error c' := by
  induction definitions generalizing c with
  | nil => exact absurd h Embedding.pure_ne_error
  | cons first rest ih =>
      obtain ⟨key, content⟩ := first
      unfold Embedding.hoistAll at h
      rcases Embedding.bind_eq_error.mp h with hone | ⟨name, c₁, hone, hrest⟩
      · exact ⟨[], key, content, rest, [], c, rfl, rfl, hone⟩
      · rcases Embedding.bind_eq_error.mp hrest with hall | ⟨names, c₂, -, hpure⟩
        · obtain ⟨front, key', content', back, names, c₂, rfl, hfront, hfails⟩ := ih hall
          refine ⟨(key, content) :: front, key', content', back, (key, name) :: names, c₂, rfl, ?_,
            hfails⟩
          unfold Embedding.hoistAll
          exact Embedding.bind_eq_ok.mpr ⟨name, c₁, hone,
            Embedding.bind_eq_ok.mpr ⟨names, c₂, hfront, rfl⟩⟩
        · exact absurd hpure Embedding.pure_ne_error

theorem Embedding.hoist_error {target : String → String → RefTarget}
    {definitions : List (String × Json)}
    (h : Embedding.hoist target identity definitions c = .error error c') :
    Embedding.hoistAll identity (Sharing.resolve (c.viable target identity definitions))
      definitions c = .error error c' := by
  unfold Embedding.hoist at h
  simp only [Embedding.bind_eq_error, Embedding.get_ne_error, Embedding.get_eq_ok,
    Embedding.modify_ne_error, false_or] at h
  obtain ⟨a, c₀, ⟨rfl, rfl⟩, hall | ⟨names, c₂, -, hnever⟩⟩ := h
  · exact hall
  · exact hnever.elim

namespace Embedder

/-- **A document is not embedded** when it gets no name, when it cannot be had, or when one of
its definitions gets no name. -/
theorem ensureEmbedded_error (h : e.ensureEmbedded loader identity c = .error error c') :
    c.resource? identity = none ∧
      (c.allocator.allocate (e.naming identity) identity = .error error ∨
        ∃ name c₁, Embedding.reserveResource identity (e.naming identity) c = .ok name c₁ ∧
          (loader.fetch identity = .error error ∨
            ∃ document, loader.fetch identity = .ok document ∧
              Embedding.hoist e.refTarget identity (e.mount.takeDefinitions document).1
                (c₁.opened identity name (e.mount.takeDefinitions document).2) =
                  .error error c')) := by
  unfold ensureEmbedded at h
  simp only [Embedding.bind_eq_error, Embedding.get_ne_error, Embedding.get_eq_ok, false_or] at h
  obtain ⟨a, c₀, ⟨rfl, rfl⟩, h⟩ := h
  split at h
  · exact absurd h Embedding.pure_ne_error
  · rename_i hnone
    refine ⟨Option.not_isSome_iff_eq_none.mp hnone, ?_⟩
    simp only [Embedding.bind_eq_error, Embedding.modify_ne_error, Embedding.modify_eq_ok,
      false_or] at h
    rcases h with hreserve | ⟨name, c₁, hreserve, -, c₂, rfl, h⟩
    · exact Or.inl (Context.reserveResource_error hreserve).1
    · refine Or.inr ⟨name, c₁, hreserve, ?_⟩
      cases hfetch : loader.fetch identity with
      | error found =>
          rw [hfetch] at h
          exact Or.inl (congrArg _ (Embedding.throw_eq_error.mp h).1)
      | ok document =>
          rw [hfetch] at h
          simp only [Embedding.bind_eq_error, Embedding.modify_ne_error, Embedding.modify_eq_ok,
            false_or] at h
          obtain ⟨-, c₃, rfl, hhoist⟩ := h
          exact Or.inr ⟨document, rfl, hhoist⟩

/-- So either a name ran out, or the document cannot be had. -/
theorem ensureEmbedded_error_cases (h : e.ensureEmbedded loader identity c = .error error c') :
    (∃ base i, error = .nameCollision base i) ∨ loader.fetch identity = .error error := by
  obtain ⟨-, halloc | ⟨name, c₁, -, hfetch | ⟨document, -, hhoist⟩⟩⟩ := ensureEmbedded_error h
  · exact Or.inl ⟨_, _, (NameAllocator.allocate_error_cases halloc).1⟩
  · exact Or.inr hfetch
  · obtain ⟨front, key, content, back, names, c₂, -, -, hone⟩ :=
      Embedding.hoistAll_error (Embedding.hoist_error hhoist)
    exact Or.inl ⟨_, _, (NameAllocator.allocate_error_cases (Context.hoistOne_error hone).1).1⟩

/-! ### Following references -/

/-- **A reference is not followed** when it cannot be read, or when the document that it names
cannot be embedded. A third way, that a document has no name, is never taken in a run. -/
theorem redirectRef_error {raw : String} (h : e.redirectRef loader scope raw c = .error error c') :
    e.readLink raw = .error error ∨
      (∃ url pointer, e.readLink raw = .ok (.outside url pointer) ∧
        e.ensureEmbedded loader (Identity.resolve scope url) c = .error error c') ∨
      ∃ i, error = .invalidDocument (.noName i) := by
  have htarget : ∀ {i : String} {pointer : Pointer} {c₁ : Context},
      e.target i pointer c₁ = .error error c' → error = .invalidDocument (.noName i) := by
    intro i pointer c₁ hrun
    unfold target at hrun
    simp only [Embedding.bind_eq_error, Embedding.get_ne_error, Embedding.get_eq_ok,
      false_or] at hrun
    obtain ⟨a, c₀, ⟨rfl, rfl⟩, hrun⟩ := hrun
    cases hres : c₁.resource? i with
    | some resource => rw [hres] at hrun; exact absurd hrun Embedding.pure_ne_error
    | none => rw [hres] at hrun; exact (Embedding.throw_eq_error.mp hrun).1.symm
  unfold redirectRef at h
  cases hlink : e.readLink raw with
  | error found =>
      rw [hlink] at h
      exact Or.inl (congrArg _ (Embedding.throw_eq_error.mp h).1)
  | ok link =>
      rw [hlink] at h
      refine Or.inr ?_
      cases link with
      | keep => exact absurd h Embedding.pure_ne_error
      | inside pointer =>
          cases scope with
          | none => exact absurd h Embedding.pure_ne_error
          | some i => exact Or.inr ⟨i, htarget h⟩
      | outside url pointer =>
          rcases Embedding.bind_eq_error.mp h with hembed | ⟨-, c₁, -, hrest⟩
          · exact Or.inl ⟨url, pointer, rfl, hembed⟩
          · exact Or.inr ⟨_, htarget hrest⟩

/-- Of some references, taken in order, one is not followed; those before it are. -/
def FailsAmong (e : Embedder) (loader : Loader) (scope : Option String) (raws : List String)
    (c : Context) (error : Error) (c' : Context) : Prop :=
  ∃ before raw after texts c₁, raws = before ++ raw :: after ∧
    Follows e loader scope before texts c c₁ ∧
    e.redirectRef loader scope raw c₁ = .error error c'

namespace FailsAmong

variable {raws front texts : List String} {c₁ : Context}

theorem behind (hfront : Follows e loader scope front texts c c₁)
    (h : FailsAmong e loader scope raws c₁ error c') :
    FailsAmong e loader scope (front ++ raws) c error c' := by
  obtain ⟨before, raw, after, texts', c₂, rfl, hbefore, hfails⟩ := h
  exact ⟨front ++ before, raw, after, texts ++ texts', c₂, by rw [List.append_assoc],
    hfront.append hbefore, hfails⟩

theorem before (h : FailsAmong e loader scope raws c error c') (back : List String) :
    FailsAmong e loader scope (raws ++ back) c error c' := by
  obtain ⟨before, raw, after, texts, c₁, rfl, hbefore, hfails⟩ := h
  exact ⟨before, raw, after ++ back, texts, c₁, by rw [List.append_assoc, List.cons_append],
    hbefore, hfails⟩

end FailsAmong

private theorem redirectItems_error {items : List Json}
    (ih : ∀ item ∈ items, ∀ {c}, e.redirect loader scope item c = .error error c' →
      FailsAmong e loader scope item.refs c error c')
    (h : e.redirectItems loader scope items c = .error error c') :
    FailsAmong e loader scope (items.flatMap Json.refs) c error c' := by
  induction items generalizing c with
  | nil => exact absurd h Embedding.pure_ne_error
  | cons item rest ihrest =>
      unfold redirectItems at h
      rw [List.flatMap_cons]
      rcases Embedding.bind_eq_error.mp h with hitem | ⟨w, c₁, hitem, h⟩
      · exact (ih item List.mem_cons_self hitem).before _
      · obtain ⟨texts, hfollows, -⟩ := redirect_follows hitem
        rcases Embedding.bind_eq_error.mp h with hrest | ⟨ws, c₂, -, hpure⟩
        · exact (ihrest (fun v hv => ih v (List.mem_cons_of_mem _ hv)) hrest).behind hfollows
        · exact absurd hpure Embedding.pure_ne_error

private theorem redirectMembers_error {members : List (String × Json)}
    (ih : ∀ entry ∈ members, ∀ {c}, e.redirect loader scope entry.2 c = .error error c' →
      FailsAmong e loader scope entry.2.refs c error c')
    (h : e.redirectMembers loader scope members c = .error error c') :
    FailsAmong e loader scope (members.flatMap fun entry => Json.refsAt entry.1 entry.2) c
      error c' := by
  induction members generalizing c with
  | nil => exact absurd h Embedding.pure_ne_error
  | cons entry rest ihrest =>
      obtain ⟨key, v⟩ := entry
      unfold redirectMembers at h
      rw [List.flatMap_cons]
      have hrest : ∀ {c₁ w texts}, Follows e loader scope (Json.refsAt key v) texts c c₁ →
          (do
            let rest ← e.redirectMembers loader scope rest
            return (key, w) :: rest : Embedding (List (String × Json))) c₁ = .error error c' →
          FailsAmong e loader scope
            (Json.refsAt key v ++ rest.flatMap fun entry => Json.refsAt entry.1 entry.2) c
            error c' := by
        intro c₁ w texts hfollows h
        rcases Embedding.bind_eq_error.mp h with hrest | ⟨ws, c₂, -, hpure⟩
        · exact (ihrest (fun v hv => ih v (List.mem_cons_of_mem _ hv)) hrest).behind hfollows
        · exact absurd hpure Embedding.pure_ne_error
      unfold Json.refsAt at hrest ⊢
      cases href : refText? key v with
      | some raw =>
          rw [href] at h hrest
          simp only [Embedding.bind_eq_error, Embedding.map_eq_error, Embedding.map_eq_ok] at h
          rcases h with hfails | ⟨w, c₁, ⟨text, htext, -⟩, h⟩
          · exact ⟨[], raw, _, [], c, rfl, .nil c, hfails⟩
          · exact hrest (.cons htext (.nil c₁)) (Embedding.bind_eq_error.mpr h)
      | none =>
          rw [href] at h hrest
          rcases Embedding.bind_eq_error.mp h with hv | ⟨w, c₁, hv, h⟩
          · exact (ih (key, v) List.mem_cons_self hv).before _
          · obtain ⟨texts, hfollows, -⟩ := redirect_follows hv
            exact hrest hfollows h

/-- **A value is not redirected** when one of its references is not followed. -/
theorem redirect_error {v : Json} (h : e.redirect loader scope v c = .error error c') :
    FailsAmong e loader scope v.refs c error c' := by
  induction v generalizing c with
  | null => exact absurd h Embedding.pure_ne_error
  | bool b => exact absurd h Embedding.pure_ne_error
  | number n => exact absurd h Embedding.pure_ne_error
  | string s => exact absurd h Embedding.pure_ne_error
  | array items ih =>
      unfold redirect at h
      rw [Json.refs_array]
      rcases Embedding.bind_eq_error.mp h with hitems | ⟨ws, c₁, -, hpure⟩
      · exact redirectItems_error (fun v hv {c} => ih v hv (c := c)) hitems
      · exact absurd hpure Embedding.pure_ne_error
  | object members ih =>
      unfold redirect at h
      rw [Json.refs_object]
      rcases Embedding.bind_eq_error.mp h with hmembers | ⟨ws, c₁, -, hpure⟩
      · exact redirectMembers_error (fun v hv {c} => ih v hv (c := c)) hmembers
      · exact absurd hpure Embedding.pure_ne_error

/-! ### The worklist -/

/-- A step fails at the piece that waits longest. -/
theorem step_error (h : e.step loader c = .error error c') :
    ∃ pending rest, c.worklist = pending :: rest ∧
      e.redirect loader (some pending.identity) ((c.definitions.get? pending.name).getD .null)
        { c with worklist := rest } = .error error c' := by
  unfold step at h
  simp only [Embedding.bind_eq_error, Embedding.get_ne_error, Embedding.get_eq_ok, false_or] at h
  obtain ⟨a, c₀, ⟨rfl, rfl⟩, h⟩ := h
  cases hwork : c.worklist with
  | nil =>
      rw [hwork] at h
      exact absurd h Embedding.pure_ne_error
  | cons pending rest =>
      rw [hwork] at h
      refine ⟨pending, rest, rfl, ?_⟩
      simp only [Embedding.bind_eq_error, Embedding.set_ne_error, Embedding.set_eq_ok,
        Embedding.modify_ne_error, Embedding.pure_ne_error, and_false, exists_false, or_false,
        false_or] at h
      obtain ⟨-, c₁, rfl, hredirect⟩ := h
      exact hredirect

/-- Taking steps fails at one of them, and what every step keeps holds before that one. -/
theorem drain_error {P : Context → Prop} {steps : Nat}
    (hkeeps : ∀ {c more c'}, P c → e.step loader c = .ok more c' → P c') (hP : P c)
    (h : e.drain loader steps c = .error error c') :
    ∃ c₁, P c₁ ∧ e.step loader c₁ = .error error c' := by
  induction steps generalizing c with
  | zero =>
      unfold drain at h
      simp only [Embedding.bind_eq_error, Embedding.get_ne_error, Embedding.pure_ne_error,
        and_false, exists_false, or_self] at h
  | succ steps ih =>
      unfold drain at h
      rcases Embedding.bind_eq_error.mp h with hstep | ⟨more, c₁, hstep, h⟩
      · exact ⟨c, hP, hstep⟩
      · split at h
        · exact ih (hkeeps hP hstep) h
        · exact absurd h Embedding.pure_ne_error

/-- **A root and what it leads to are not redirected** when a reference of the root is not
followed, or when a step fails. -/
theorem traverse_error {steps : Nat} {root : Json}
    (h : e.traverse loader steps root c = .error error c') :
    e.redirect loader none root c = .error error c' ∨
      ∃ w c₁, e.redirect loader none root c = .ok w c₁ ∧
        e.drain loader steps c₁ = .error error c' := by
  unfold traverse at h
  rcases Embedding.bind_eq_error.mp h with hredirect | ⟨w, c₁, hredirect, h⟩
  · exact Or.inl hredirect
  · rcases Embedding.bind_eq_error.mp h with hdrain | ⟨through, c₂, -, hpure⟩
    · exact Or.inr ⟨w, c₁, hredirect, hdrain⟩
    · exact absurd hpure Embedding.pure_ne_error

/-- **A run over an object fails** when the node for the definitions is taken, when the root or
what it leads to is not redirected, or when the definitions cannot be put in. -/
theorem run_failed {steps : Nat} {root : Json} (hobject : root.isObject = true)
    (h : (e.run loader steps root).outcome = .failed error) :
    e.existingNames root = .error error ∨
      ∃ existing, e.existingNames root = .ok existing ∧
        ((∃ c, e.traverse loader steps root
            (Context.start e.maxSuffix (e.reserved ++ existing)) = .error error c) ∨
          ∃ w c, e.traverse loader steps root
              (Context.start e.maxSuffix (e.reserved ++ existing)) = .ok (some w) c ∧
            e.finish c w = .error error) := by
  unfold run at h
  rw [if_neg (by simp [hobject])] at h
  cases hexisting : e.existingNames root with
  | error found =>
      rw [hexisting] at h
      exact Or.inl (congrArg _ (Outcome.failed.inj h))
  | ok existing =>
      rw [hexisting] at h
      refine Or.inr ⟨existing, rfl, ?_⟩
      simp only at h
      cases htraverse : e.traverse loader steps root
          (Context.start e.maxSuffix (e.reserved ++ existing)) with
      | error found c =>
          rw [htraverse] at h
          exact Or.inl ⟨c, congrArg (EStateM.Result.error · c) (Outcome.failed.inj h)⟩
      | ok result c =>
          rw [htraverse] at h
          cases result with
          | none => simp at h
          | some w =>
              replace h : Outcome.ofExcept (e.finish c w) = .failed error := h
              refine Or.inr ⟨w, c, rfl, ?_⟩
              cases hfinish : e.finish c w with
              | ok out => rw [hfinish] at h; simp [Outcome.ofExcept] at h
              | error found => rw [hfinish] at h; exact congrArg _ (Outcome.failed.inj h)

/-- A run that is cut short has redirected the root, and something waits. -/
theorem run_unfinished {steps : Nat} {root : Json}
    (h : (e.run loader steps root).outcome = .unfinished) :
    ∃ existing c, e.existingNames root = .ok existing ∧
      e.traverse loader steps root (Context.start e.maxSuffix (e.reserved ++ existing)) =
        .ok none c := by
  unfold run at h
  split at h
  · simp at h
  · cases hexisting : e.existingNames root with
    | error found => rw [hexisting] at h; simp at h
    | ok existing =>
        rw [hexisting] at h
        simp only at h
        cases htraverse : e.traverse loader steps root
            (Context.start e.maxSuffix (e.reserved ++ existing)) with
        | error found c => rw [htraverse] at h; simp at h
        | ok result c =>
            rw [htraverse] at h
            cases result with
            | none => exact ⟨existing, c, rfl, htraverse⟩
            | some w =>
                replace h : Outcome.ofExcept (e.finish c w) = .unfinished := h
                cases hfinish : e.finish c w <;> rw [hfinish] at h <;>
                  simp [Outcome.ofExcept] at h

end Embedder

end SchemaBundle
