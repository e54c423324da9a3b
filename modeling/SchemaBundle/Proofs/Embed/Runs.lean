/-
Computations and the moments of a run.

What the moments of a run say is worth as much as the link between them and the run.  So the
run is followed through its own definition: every computation in it leads from the moment at
which it begins to a later one, in whose context it ends, be it with a result or with an error.
No step of the run is left out, because each command that changes the context is a step from
one moment to the next; and after an error there is no next moment.

`Runs` says this of a computation, and its rules follow the way computations are put together.
It is shown here for the commands that embed one document.
-/
import SchemaBundle.Proofs.Embed.Moments

namespace SchemaBundle

/-- Any error but that a document has no name. -/
def Error.Possible (error : Error) : Prop :=
  ∀ i, error ≠ .invalidDocument (.noName i)

theorem Error.Possible.of_eq {α : Type} {found error : Error}
    (h : (.error found : Except Error α) = .error error) (hfound : found.Possible) :
    error.Possible :=
  Except.error.inj h ▸ hfound

theorem NameAllocator.allocate_error {a : NameAllocator} {base i : String} {error : Error}
    (h : a.allocate base i = .error error) : error.Possible := by
  unfold allocate at h
  split at h
  · exact .of_eq h (by simp [Error.Possible])
  · split at h
    · simp at h
    · split at h
      · simp at h
      · exact .of_eq h (by simp [Error.Possible])

theorem Loader.fetch_error {loader : Loader} {i : String} {error : Error}
    (h : loader.fetch i = .error error) : error.Possible := by
  unfold fetch at h
  split at h
  · split at h
    · exact .of_eq h (by simp [Error.Possible])
    · simp at h
  · exact .of_eq h (by simp [Error.Possible])
  · exact .of_eq h (by simp [Error.Possible])

theorem MountPath.addAt_error {mount : MountPath} {additions : List (String × Json)}
    {path : Pointer} {v : Json} {error : Error} (h : addAt mount additions path v = .error error) :
    error.Possible := by
  induction path generalizing v error with
  | nil =>
      unfold addAt at h
      split at h
      · simp at h
      · exact .of_eq h (by simp [Error.Possible])
  | cons segment rest ih =>
      unfold addAt at h
      split at h
      · split at h
        · simp at h
        · rename_i hrest
          exact .of_eq h (ih hrest)
      · exact .of_eq h (by simp [Error.Possible])

namespace Embedder

variable {e : Embedder} {loader : Loader} {root : Json} {kept : List String} {m m' : Moment}
  {work : Work} {subject : Subject} {begun c c' : Context} {left : List String} {q : List Piece}
  {i raw : String} {error : Error}

theorem readLink_error (h : e.readLink raw = .error error) : error.Possible := by
  unfold readLink at h
  split at h
  · split at h
    · exact .of_eq h (by simp [Error.Possible])
    · split at h
      · simp at h
      · split at h <;> simp at h
  · split at h
    · simp at h
    · split at h <;> simp at h

theorem target_error {pointer : Pointer} (h : e.target i pointer c = .error error c') :
    c.resource? i = none := by
  unfold target at h
  simp only [Embedding.bind_eq_error, Embedding.get_ne_error, Embedding.get_eq_ok, false_or] at h
  obtain ⟨a, c₁, ⟨rfl, rfl⟩, h⟩ := h
  cases hres : c.resource? i with
  | none => rfl
  | some resource =>
      rw [hres] at h
      exact absurd h Embedding.pure_ne_error

/-! ### Computations and moments -/

/-- A moment after which nothing comes. -/
def Stuck (e : Embedder) (loader : Loader) (m : Moment) : Prop :=
  ∀ m', ¬ e.Next loader m m'

/-- A computation that begins in a context, at a moment, ends at a later one: with a result,
or for good, with an error that is not the lack of a name. -/
structure Runs {α : Type} (e : Embedder) (loader : Loader) (m : Moment) (c : Context)
    (x : Embedding α) (P : α → Moment → Prop) : Prop where
  ok : ∀ a c', x c = .ok a c' → ∃ m', e.Later loader m m' ∧ m'.context = c' ∧ P a m'
  error : ∀ error c', x c = .error error c' →
    error.Possible ∧ ∃ m', e.Later loader m m' ∧ m'.context = c' ∧ e.Stuck loader m'

namespace Runs

variable {α β : Type} {x : Embedding α} {f : α → Embedding β} {P : α → Moment → Prop}
  {Q : β → Moment → Prop}

theorem pure {a : α} (hc : m.context = c) (hP : P a m) : Runs e loader m c (Pure.pure a) P where
  ok := by
    intro b c' h
    obtain ⟨rfl, rfl⟩ := Embedding.pure_eq_ok.mp h
    exact ⟨m, .refl, hc, hP⟩
  error := fun _ _ h => absurd h Embedding.pure_ne_error

theorem throw (hc : m.context = c) (herror : error.Possible) (hstuck : e.Stuck loader m) :
    Runs e loader m c (MonadExcept.throw error : Embedding α) P where
  ok := fun _ _ h => absurd h Embedding.throw_ne_ok
  error := by
    intro found c' h
    obtain ⟨rfl, rfl⟩ := Embedding.throw_eq_error.mp h
    exact ⟨herror, m, .refl, hc, hstuck⟩

/-- The run has gone on to a later moment. -/
theorem later (hlater : e.Later loader m m') (h : Runs e loader m' c x P) :
    Runs e loader m c x P where
  ok := by
    intro a c' hrun
    obtain ⟨m₁, hlater', hrest⟩ := h.ok a c' hrun
    exact ⟨m₁, hlater.trans hlater', hrest⟩
  error := by
    intro error c' hrun
    obtain ⟨herror, m₁, hlater', hrest⟩ := h.error error c' hrun
    exact ⟨herror, m₁, hlater.trans hlater', hrest⟩

theorem bind (hx : Runs e loader m c x P)
    (hf : ∀ a m', e.Later loader m m' → P a m' → Runs e loader m' m'.context (f a) Q) :
    Runs e loader m c (x >>= f) Q where
  ok := by
    intro b c' h
    obtain ⟨a, c₁, ha, hb⟩ := Embedding.bind_eq_ok.mp h
    obtain ⟨m₁, hlater, rfl, hP⟩ := hx.ok a c₁ ha
    exact ((hf a m₁ hlater hP).later hlater).ok b c' hb
  error := by
    intro error c' h
    rcases Embedding.bind_eq_error.mp h with hfirst | ⟨a, c₁, ha, hb⟩
    · exact hx.error error c' hfirst
    · obtain ⟨m₁, hlater, rfl, hP⟩ := hx.ok a c₁ ha
      exact ((hf a m₁ hlater hP).later hlater).error error c' hb

/-- A command that is not the end of a step, and that changes nothing when it fails. -/
theorem first (hc : m.context = c)
    (hf : ∀ a c₁, x c = .ok a c₁ → Runs e loader m c₁ (f a) Q)
    (herror : ∀ error c', x c = .error error c' → error.Possible ∧ c' = c)
    (hstuck : ∀ error c', x c = .error error c' → e.Stuck loader m) :
    Runs e loader m c (x >>= f) Q where
  ok := by
    intro b c' h
    obtain ⟨a, c₁, ha, hb⟩ := Embedding.bind_eq_ok.mp h
    exact (hf a c₁ ha).ok b c' hb
  error := by
    intro error c' h
    rcases Embedding.bind_eq_error.mp h with hfirst | ⟨a, c₁, ha, hb⟩
    · obtain ⟨hpossible, rfl⟩ := herror error c' hfirst
      exact ⟨hpossible, m, .refl, hc, hstuck error _ hfirst⟩
    · exact (hf a c₁ ha).error error c' hb

theorem map {g : α → β} (hx : Runs e loader m c x P) (hQ : ∀ a m', P a m' → Q (g a) m') :
    Runs e loader m c (g <$> x) Q where
  ok := by
    intro b c' h
    obtain ⟨a, ha, rfl⟩ := Embedding.map_eq_ok.mp h
    obtain ⟨m₁, hlater, hc, hP⟩ := hx.ok a c' ha
    exact ⟨m₁, hlater, hc, hQ a m₁ hP⟩
  error := fun error c' h => hx.error error c' (Embedding.map_eq_error.mp h)

/-- What is read of the context. -/
theorem get_bind {f : Context → Embedding β} (h : Runs e loader m c (f c) Q) :
    Runs e loader m c (get >>= f) Q :=
  ⟨h.ok, h.error⟩

/-- The result, once more with the context in which it was computed. -/
theorem remember (h : Runs e loader m c x P) :
    Runs e loader m c x fun a m' => P a m' ∧ x c = .ok a m'.context where
  ok := by
    intro a c' hrun
    obtain ⟨m₁, hlater, rfl, hP⟩ := h.ok a c' hrun
    exact ⟨m₁, hlater, rfl, hP, hrun⟩
  error := h.error

/-- What is done to the context without an end of a step. -/
theorem modify_bind {g : Context → Context} {f : PUnit → Embedding β}
    (h : Runs e loader m (g c) (f ⟨⟩) Q) :
    Runs e loader m c ((modify g : Embedding PUnit) >>= f) Q :=
  ⟨h.ok, h.error⟩

theorem set_bind {c₁ : Context} {f : PUnit → Embedding β} (h : Runs e loader m c₁ (f ⟨⟩) Q) :
    Runs e loader m c ((set c₁ : Embedding PUnit) >>= f) Q :=
  ⟨h.ok, h.error⟩

end Runs

/-! ### Embedding a document -/

theorem hoistAll_runs {shared named : List (String × String)} {definitions : List (String × Json)}
    (hm : m.activity = .naming work i shared named definitions) :
    Runs e loader m m.context (Embedding.hoistAll i shared definitions)
      (fun names m' => m'.activity = .naming work i shared (named ++ names) []) := by
  induction definitions generalizing m named with
  | nil =>
      unfold Embedding.hoistAll
      exact .pure rfl (by rw [hm, List.append_nil])
  | cons entry rest ih =>
      obtain ⟨key, content⟩ := entry
      obtain ⟨activity, c, q⟩ := m
      obtain rfl : activity = _ := hm
      have hone : Runs e loader ⟨.naming work i shared named ((key, content) :: rest), c, q⟩ c
          (Embedding.hoistOne i shared key content)
          (fun name m' => m'.activity = .naming work i shared (named ++ [(key, name)]) rest) := by
        refine ⟨fun name c' h => ⟨_, .single (.name h), rfl, rfl⟩, fun error c' h => ?_⟩
        obtain ⟨halloc, rfl⟩ := Context.hoistOne_error h
        refine ⟨NameAllocator.allocate_error halloc, _, .refl, rfl, fun m' hnext => ?_⟩
        cases hnext with
        | name hrun =>
            rw [h] at hrun
            simp at hrun
      unfold Embedding.hoistAll
      refine hone.bind fun name m₁ _ hm₁ => (ih hm₁).bind fun names m₂ _ hm₂ => ?_
      refine .pure rfl ?_
      rw [hm₂, List.append_assoc, List.singleton_append]

theorem hoist_runs {definitions : List (String × Json)} {resource : Resource}
    (hinv : e.Invariant loader root kept m)
    (hm : m.activity = .naming work i
      (Sharing.resolve (m.context.viable e.refTarget i definitions)) [] definitions)
    (hres : m.context.resource? i = some resource) :
    Runs e loader m m.context (Embedding.hoist e.refTarget i definitions)
      (fun _ m' => m'.activity = .following work ∧ (m'.context.resource? i).isSome) := by
  unfold Embedding.hoist
  refine .get_bind ((hoistAll_runs hm).bind fun names m₁ hlater hm₁ => ?_)
  obtain ⟨found, hfound, -⟩ := (hinv.remains_later hlater hres).name
  obtain ⟨activity, c, q⟩ := m₁
  obtain rfl : activity = _ := hm₁
  refine ⟨fun _ c' h => ?_, fun _ _ h => absurd h Embedding.modify_ne_error⟩
  obtain rfl := Embedding.modify_eq_ok.mp h
  rw [show c.resource? i = some found from hfound]
  refine ⟨_, .single (.embed hfound), rfl, rfl, ?_⟩
  show (Entries.get? (Entries.insert i _ c.resources) i).isSome = true
  rw [Entries.get?_insert_self]
  rfl

/-- A document that gets no name is not passed over. -/
theorem stuck_of_reserve {url : String} {pointer : Pointer}
    (hlink : e.readLink raw = .ok (.outside url pointer))
    (hi : Identity.resolve subject.scope url = i) (hunknown : c.resource? i = none)
    (hreserve : Embedding.reserveResource i (e.naming i) c = .error error c') :
    e.Stuck loader ⟨.following ⟨subject, begun, raw :: left⟩, c, q⟩ := by
  intro m' hnext
  cases hnext with
  | pass hknown _ =>
      have hsome := hknown url pointer hlink
      rw [hi, hunknown] at hsome
      simp at hsome
  | reserve hlink' hi' _ hreserve' =>
      rw [hlink] at hlink'
      obtain ⟨rfl, rfl⟩ := Link.outside.inj (Except.ok.inj hlink')
      rw [← hi', hi, hreserve] at hreserve'
      simp at hreserve'

/-- A reference that cannot be read is not passed over. -/
theorem stuck_of_readLink (hlink : e.readLink raw = .error error)
    (hm : m.activity = .following ⟨subject, begun, raw :: left⟩) : e.Stuck loader m := by
  obtain ⟨activity, c, q⟩ := m
  obtain rfl : activity = _ := hm
  intro m' hnext
  cases hnext with
  | pass _ hrun =>
      unfold redirectRef at hrun
      rw [hlink] at hrun
      exact Embedding.throw_ne_ok hrun
  | reserve hlink' _ _ _ =>
      rw [hlink] at hlink'
      simp at hlink'

/-- A document is embedded while a reference to it is followed. -/
theorem ensureEmbedded_runs {url : String} {pointer : Pointer}
    (hinv : e.Invariant loader root kept m)
    (hm : m.activity = .following ⟨subject, begun, raw :: left⟩)
    (hlink : e.readLink raw = .ok (.outside url pointer))
    (hi : Identity.resolve subject.scope url = i) :
    Runs e loader m m.context (e.ensureEmbedded loader i)
      (fun _ m' => m'.activity = .following ⟨subject, begun, raw :: left⟩ ∧
        (m'.context.resource? i).isSome) := by
  obtain ⟨activity, c, q⟩ := m
  obtain rfl : activity = _ := hm
  unfold ensureEmbedded
  refine .get_bind ?_
  split
  · rename_i hsome
    exact .pure rfl ⟨rfl, hsome⟩
  · rename_i hnone
    rw [Option.not_isSome_iff_eq_none] at hnone
    have hfails : ∀ error c', Embedding.reserveResource i (e.naming i) c = .error error c' →
        error.Possible ∧ c' = c := by
      intro error c' herror
      obtain ⟨halloc, hc⟩ := Context.reserveResource_error herror
      exact ⟨NameAllocator.allocate_error halloc, hc⟩
    refine .first rfl (fun name c₁ hreserve => ?_) hfails
      fun _ _ herror => stuck_of_reserve hlink hi hnone herror
    have hloading : e.Next loader ⟨.following ⟨subject, begun, raw :: left⟩, c, q⟩
        ⟨.loading ⟨subject, begun, raw :: left⟩ i name,
          { c₁ with loaded := c₁.loaded ++ [i] }, q⟩ :=
      .reserve hlink hi hnone hreserve
    refine .modify_bind (.later (.single hloading) ?_)
    cases hfetch : loader.fetch i with
    | error error =>
        refine .throw rfl (Loader.fetch_error hfetch) fun m' hnext => ?_
        cases hnext with
        | store hdocument _ =>
            rw [hfetch] at hdocument
            simp at hdocument
    | ok document =>
        refine .modify_bind (.later (.single (.store hfetch rfl)) ?_)
        have hinv := (hinv.step hloading).step (.store hfetch rfl)
        have hres : c₁.resource? i = some ⟨name, []⟩ := by
          obtain ⟨-, -, hresources, -⟩ := Context.reserveResource_ok hreserve
          unfold Context.resource?
          rw [hresources, Entries.get?_insert_self]
        exact hoist_runs hinv rfl hres

end Embedder

end SchemaBundle
