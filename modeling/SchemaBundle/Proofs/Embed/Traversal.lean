/-
Every definition is traversed exactly once.

The references of a value are followed one after the other, the pieces of the worklist in the
order in which they were put on it, and so a whole run goes from moment to moment until it
ends.  What the moments say about the worklist holds at all of them.

Two things then cannot happen.  A piece that is taken off the worklist is stored, so that
`null` never takes its place.  And no reference is given a text before the document it leads
to has a name: one inside a document is followed for a piece of that document, which is
embedded, and one to another document is followed after that one was.
-/
import SchemaBundle.Proofs.Embed.Runs

namespace SchemaBundle

namespace Embedder

variable {e : Embedder} {loader : Loader} {root : Json} {kept : List String} {m m' : Moment}
  {work : Work} {subject : Subject} {begun c c' : Context} {left : List String} {q : List Piece}
  {i raw : String} {error : Error}

/-! ### Following references -/

/-- The document of a piece that is being redirected is known. -/
theorem Busy.scope_known (h : e.Busy loader root kept work c q)
    (hscope : work.subject.scope = some i) : (c.resource? i).isSome := by
  obtain ⟨progress, -⟩ := h.quiet
  cases hsubject : work.subject with
  | root document =>
      rw [hsubject] at hscope
      simp [Subject.scope] at hscope
  | piece p =>
      rw [hsubject] at hscope progress
      have hp := progress.pieces ▸ show p ∈ _ ++ Subject.active (.piece p) ++ _ by
        simp [Subject.active]
      obtain ⟨r, hr, hpr⟩ := List.mem_flatMap.mp hp
      rw [← Option.some.inj hscope, Record.identity_of_mem_pieces hpr,
        progress.holds.keeps.resource_of_mem hr]
      rfl

theorem Invariant.busy (h : e.Invariant loader root kept m) (hm : m.activity = .following work) :
    e.Busy loader root kept work m.context m.queued := by
  cases h with
  | following h => exact Activity.following.inj hm ▸ h
  | idle _ => simp at hm
  | loading _ _ _ _ => simp at hm
  | naming _ _ _ _ _ _ _ _ => simp at hm

/-- A reference that gets its text is passed over, when its document is embedded. -/
theorem redirectRef_passes {text : String} (hinv : e.Invariant loader root kept m)
    (hm : m.activity = .following ⟨subject, begun, raw :: left⟩)
    (h : e.redirectRef loader subject.scope raw m.context = .ok text c') :
    ∃ m', e.Later loader m m' ∧ m'.context = c' ∧
      m'.activity = .following ⟨subject, begun, left⟩ := by
  obtain ⟨-, hsettled, rfl⟩ := redirectRef_ok h
  have hpass : ∀ q, e.Next loader ⟨.following ⟨subject, begun, raw :: left⟩, c', q⟩
      ⟨.following ⟨subject, begun, left⟩, c', q⟩ := by
    intro q
    have hknown : ∀ url pointer, e.readLink raw = .ok (.outside url pointer) →
        (c'.resource? (Identity.resolve subject.scope url)).isSome := by
      intro url pointer hlink
      have hleads : e.leadsTo? subject.scope raw =
          some (Identity.resolve subject.scope url, pointer) := by
        rw [leadsTo?, hlink]
      exact hsettled.known _ pointer hleads
    exact .pass hknown hsettled.redirectRef_eq
  rcases redirectRef_embeds h with ⟨url, pointer, hlink, hembed⟩ | ⟨-, rfl⟩
  · obtain ⟨m₁, hlater, rfl, hm₁, -⟩ := (ensureEmbedded_runs hinv hm hlink rfl).ok _ _ hembed
    obtain ⟨activity, c, q⟩ := m₁
    obtain rfl : activity = _ := hm₁
    exact ⟨_, hlater.tail (hpass q), rfl, rfl⟩
  · obtain ⟨activity, c, q⟩ := m
    obtain rfl : activity = _ := hm
    exact ⟨_, .single (hpass q), rfl, rfl⟩

/-- **No reference is given a text before the document it leads to has a name.** -/
theorem redirectRef_fails (hinv : e.Invariant loader root kept m)
    (hm : m.activity = .following ⟨subject, begun, raw :: left⟩)
    (h : e.redirectRef loader subject.scope raw m.context = .error error c') :
    error.Possible ∧ ∃ m', e.Later loader m m' ∧ m'.context = c' ∧ e.Stuck loader m' := by
  unfold redirectRef at h
  cases hlink : e.readLink raw with
  | error found =>
      rw [hlink] at h
      obtain ⟨rfl, rfl⟩ := Embedding.throw_eq_error.mp h
      exact ⟨readLink_error hlink, m, .refl, rfl, stuck_of_readLink hlink hm⟩
  | ok link =>
      rw [hlink] at h
      cases link with
      | keep => exact absurd h Embedding.pure_ne_error
      | inside pointer =>
          cases hscope : subject.scope with
          | none =>
              rw [hscope] at h
              exact absurd h Embedding.pure_ne_error
          | some i =>
              -- the document of a piece was stored before the piece
              rw [hscope] at h
              have hknown := (hinv.busy hm).scope_known hscope
              rw [target_error h] at hknown
              simp at hknown
      | outside url pointer =>
          have hruns := ensureEmbedded_runs hinv hm hlink rfl
          rcases Embedding.bind_eq_error.mp h with hembed | ⟨_, c₁, hembed, htarget⟩
          · exact hruns.error _ _ hembed
          · -- the document has just been embedded
            obtain ⟨m₁, -, rfl, -, hknown⟩ := hruns.ok _ _ hembed
            rw [target_error htarget] at hknown
            simp at hknown

theorem redirectRef_runs (hinv : e.Invariant loader root kept m)
    (hm : m.activity = .following ⟨subject, begun, raw :: left⟩) :
    Runs e loader m m.context (e.redirectRef loader subject.scope raw)
      (fun _ m' => m'.activity = .following ⟨subject, begun, left⟩) where
  ok := fun _ _ h => redirectRef_passes hinv hm h
  error := fun _ _ h => redirectRef_fails hinv hm h

/-- A computation that follows some references, one after the other, and no others. -/
def Walks {α : Type} (e : Embedder) (loader : Loader) (root : Json) (kept : List String)
    (subject : Subject) (begun : Context) (refs : List String) (x : Embedding α) : Prop :=
  ∀ m left, e.Invariant loader root kept m →
    m.activity = .following ⟨subject, begun, refs ++ left⟩ →
    Runs e loader m m.context x fun _ m' => m'.activity = .following ⟨subject, begun, left⟩

namespace Walks

variable {α β : Type} {x : Embedding α} {f : α → Embedding β} {refs others : List String}

theorem pure (a : α) : Walks e loader root kept subject begun [] (Pure.pure a : Embedding α) :=
  fun _ _ _ hm => Runs.pure rfl hm

theorem bind (hx : Walks e loader root kept subject begun refs x)
    (hf : ∀ a, Walks e loader root kept subject begun others (f a)) :
    Walks e loader root kept subject begun (refs ++ others) (x >>= f) := by
  intro m left hinv hm
  rw [List.append_assoc] at hm
  exact (hx m _ hinv hm).bind fun a m₁ hlater hm₁ => hf a m₁ left (hinv.later hlater) hm₁

theorem map (hx : Walks e loader root kept subject begun refs x) (g : α → β) :
    Walks e loader root kept subject begun refs (g <$> x) :=
  fun m left hinv hm => (hx m left hinv hm).map fun _ _ hm₁ => hm₁

end Walks

/-- The references of a value are followed one after the other. -/
theorem redirect_walks (v : Json) : Walks e loader root kept subject begun v.refs
    (e.redirect loader subject.scope v) := by
  induction v with
  | null | bool _ | number _ | string _ =>
      unfold redirect
      exact .pure _
  | array items ih =>
      have hitems : Walks e loader root kept subject begun (items.flatMap Json.refs)
          (e.redirectItems loader subject.scope items) := by
        induction items with
        | nil =>
            unfold redirectItems
            exact .pure _
        | cons item rest ihrest =>
            unfold redirectItems
            have hrest := ihrest fun other hother => ih other (List.mem_cons_of_mem _ hother)
            refine (ih item List.mem_cons_self).bind fun item => ?_
            exact hrest.map (item :: ·)
      rw [Json.refs_array]
      unfold redirect
      exact hitems.map Json.array
  | object members ih =>
      have hmembers : Walks e loader root kept subject begun
          (members.flatMap fun entry => Json.refsAt entry.1 entry.2)
          (e.redirectMembers loader subject.scope members) := by
        induction members with
        | nil =>
            unfold redirectMembers
            exact .pure _
        | cons entry rest ihrest =>
            obtain ⟨key, value⟩ := entry
            have hrest := ihrest fun other hother => ih other (List.mem_cons_of_mem _ hother)
            unfold redirectMembers
            rw [List.flatMap_cons]
            unfold Json.refsAt
            cases htext : refText? key value with
            | some raw =>
                have href : Walks e loader root kept subject begun [raw]
                    (e.redirectRef loader subject.scope raw) :=
                  fun _ _ hinv hm => redirectRef_runs hinv hm
                exact (href.map Json.string).bind fun value => hrest.map ((key, value) :: ·)
            | none =>
                exact (ih _ List.mem_cons_self).bind fun value => hrest.map ((key, value) :: ·)
      rw [Json.refs_object]
      unfold redirect
      exact hmembers.map Json.object

/-! ### The worklist -/

/-- A value is followed from beginning to end. -/
theorem begin_runs (hinv : e.Invariant loader root kept (.begin subject c q)) :
    Runs e loader (.begin subject c q) c (e.redirect loader subject.scope subject.value)
      fun w m' => m'.activity = .following ⟨subject, c, []⟩ ∧
        e.redirect loader subject.scope subject.value c = .ok w m'.context := by
  refine Runs.remember (redirect_walks subject.value _ [] hinv ?_)
  rw [List.append_nil]
  rfl

/-- **Between two pieces of the worklist a run comes from one idle moment to the next.** -/
theorem step_runs (hinv : e.Invariant loader root kept m) (hm : m.activity = .idle) :
    Runs e loader m m.context (e.step loader) fun more m' =>
      m'.activity = .idle ∧ (more = false → m'.context.worklist = []) := by
  obtain ⟨activity, c, q⟩ := m
  obtain rfl : activity = _ := hm
  unfold step
  refine .get_bind ?_
  split
  · rename_i hwork
    exact .pure rfl ⟨rfl, fun _ => hwork⟩
  · rename_i pending rest hwork
    have htake : e.Next loader ⟨.idle, c, q⟩ (.begin (.piece ⟨pending.name, pending.identity,
        (c.definitions.get? pending.name).getD .null⟩) { c with worklist := rest } q) :=
      .take hwork
    refine .set_bind (.later (.single htake) ?_)
    refine (begin_runs (hinv.step htake)).bind fun w m₁ _ hm₁ => ?_
    obtain ⟨activity, c₁, q₁⟩ := m₁
    obtain ⟨hactivity, hrun⟩ := hm₁
    obtain rfl : activity = _ := hactivity
    exact .modify_bind (.later (.single (.finish hrun)) (.pure rfl ⟨rfl, nofun⟩))

theorem drain_runs {steps : Nat} (hinv : e.Invariant loader root kept m)
    (hm : m.activity = .idle) :
    Runs e loader m m.context (e.drain loader steps) fun through m' =>
      m'.activity = .idle ∧ (through = true → m'.context.worklist = []) := by
  induction steps generalizing m with
  | zero =>
      unfold drain
      exact .get_bind (.pure rfl ⟨hm, List.isEmpty_iff.mp⟩)
  | succ steps ih =>
      unfold drain
      refine (step_runs hinv hm).bind fun more m₁ hlater hm₁ => ?_
      cases more with
      | true => exact ih (hinv.later hlater) hm₁.1
      | false => exact .pure rfl ⟨hm₁.1, fun _ => hm₁.2 rfl⟩

/-- The root is followed, and then everything that it leads to. -/
theorem traverse_runs {steps : Nat}
    (hinv : e.Invariant loader root kept (.begin (.root root) c q)) :
    Runs e loader (.begin (.root root) c q) c (e.traverse loader steps root) fun result m' =>
      m'.activity = .idle ∧ (result.isSome → m'.context.worklist = []) := by
  unfold traverse
  refine (begin_runs hinv).bind fun w m₁ hlater hm₁ => ?_
  obtain ⟨activity, c₁, q₁⟩ := m₁
  obtain ⟨hactivity, hrun⟩ := hm₁
  obtain rfl : activity = _ := hactivity
  have hfinish := Next.finish (e := e) (q := q₁) hrun
  refine .later (.single hfinish) ?_
  refine (drain_runs ((hinv.later hlater).step hfinish) rfl).bind fun through m₂ _ hm₂ => ?_
  cases through with
  | true => exact .pure rfl ⟨hm₂.1, fun _ => hm₂.2 rfl⟩
  | false => exact .pure rfl ⟨hm₂.1, nofun⟩

/-! ### Whole runs -/

theorem existingNames_error (h : e.existingNames root = .error error) : error.Possible := by
  unfold existingNames at h
  split at h
  · simp at h
  · exact .of_eq h (by simp [Error.Possible])
  · simp at h

theorem finish_error {w : Json} (h : e.finish c w = .error error) : error.Possible := by
  unfold finish at h
  cases hadd : e.mount.addDefinitions c.definitions.entries w with
  | error found =>
      rw [hadd] at h
      exact .of_eq h (MountPath.addAt_error hadd)
  | ok added =>
      rw [hadd] at h
      simp [Except.map] at h

/-- A run of so many steps ends at a moment. -/
structure EndsAt (e : Embedder) (loader : Loader) (root : Json) (steps : Nat) (m : Moment) :
    Prop where
  visited : e.Visits loader root m
  context : m.context = e.endContext loader steps root
  /-- Unless the steps were used up, no other moment comes after this one. -/
  last : (e.run loader steps root).outcome ≠ .unfinished →
    ∀ m', e.Visits loader root m' → e.Later loader m' m
  /-- If the run succeeds, nothing waits. -/
  through : ∀ out, (e.run loader steps root).outcome = .done out →
    m.activity = .idle ∧ m.context.worklist = []

/-- Nothing comes after a moment at which nothing is done and nothing waits. -/
theorem stuck_of_empty (hm : m.activity = .idle) (hwork : m.context.worklist = []) :
    e.Stuck loader m := by
  obtain ⟨activity, c, q⟩ := m
  obtain rfl : activity = _ := hm
  intro m' hnext
  cases hnext with
  | take hcons =>
      rw [show c.worklist = [] from hwork] at hcons
      simp at hcons

/-- Nothing that a run comes to is later than a moment after which nothing comes. -/
theorem Stuck.last (hstuck : e.Stuck loader m) (h : e.Visits loader root m)
    (h' : e.Visits loader root m') : e.Later loader m' m := by
  rcases h.total h' with hlater | hlater
  · rcases Relation.ReflTransGen.cases_head hlater with rfl | ⟨_, hnext, _⟩
    · exact .refl
    · exact absurd hnext (hstuck _)
  · exact hlater

/-- **A run ends where it has come to.** -/
theorem exists_endsAt {existing : List String} (hobject : root.isObject = true)
    (hexisting : e.existingNames root = .ok existing) (steps : Nat) :
    ∃ m, e.EndsAt loader root steps m := by
  have hruns : Runs e loader _ _ (e.traverse loader steps root) _ :=
    traverse_runs (e.invariant_start loader root existing)
  have hvisits : ∀ {m}, e.Later loader (.begin (.root root)
      (Context.start e.maxSuffix (e.reserved ++ existing)) []) m → e.Visits loader root m :=
    fun hlater => ⟨hobject, existing, hexisting, hlater⟩
  cases htraverse : e.traverse loader steps root
      (Context.start e.maxSuffix (e.reserved ++ existing)) with
  | error error c =>
      obtain ⟨-, m, hlater, hc, hstuck⟩ := hruns.error _ _ htraverse
      have hm := hvisits hlater
      refine ⟨m, hm, ?_, fun _ _ => hstuck.last hm, fun out hout => ?_⟩
      · simp only [endContext, hexisting, htraverse, hc]
      · simp [run, hobject, hexisting, htraverse] at hout
  | ok result c =>
      obtain ⟨m, hlater, hc, hidle, hempty⟩ := hruns.ok _ _ htraverse
      have hm := hvisits hlater
      have hend : m.context = e.endContext loader steps root := by
        simp only [endContext, hexisting, htraverse, hc]
      cases result with
      | none =>
          have hshort : (e.run loader steps root).outcome = .unfinished := by
            simp [run, hobject, hexisting, htraverse]
          refine ⟨m, hm, hend, fun hne => absurd hshort hne, fun out hout => ?_⟩
          rw [hshort] at hout
          simp at hout
      | some w =>
          have hstuck : e.Stuck loader m := stuck_of_empty hidle (hempty rfl)
          exact ⟨m, hm, hend, fun _ _ => hstuck.last hm, fun _ _ => ⟨hidle, hempty rfl⟩⟩

/-- **No run fails because a document has no name.** -/
theorem run_possible {steps : Nat} (h : (e.run loader steps root).outcome = .failed error) :
    error.Possible := by
  unfold run at h
  split at h
  · obtain rfl := Outcome.failed.inj h
    simp [Error.Possible]
  · cases hexisting : e.existingNames root with
    | error found =>
        rw [hexisting] at h
        exact Outcome.failed.inj h ▸ existingNames_error hexisting
    | ok existing =>
        rw [hexisting] at h
        have hruns : Runs e loader _ _ (e.traverse loader steps root) _ :=
          traverse_runs (e.invariant_start loader root existing)
        simp only at h
        split at h
        · rename_i w c _
          cases hfinish : e.finish c w with
          | error found =>
              rw [hfinish] at h
              exact Outcome.failed.inj h ▸ finish_error hfinish
          | ok out => rw [hfinish] at h; simp [Outcome.ofExcept] at h
        · simp at h
        · rename_i found c hrun
          exact Outcome.failed.inj h ▸ (hruns.error _ _ hrun).1

/-! ### Once for each definition -/

/-- **Every definition is traversed exactly once.** At each moment that a run comes to, also
while a document is being embedded, what was ever put on the worklist has the names of the
definitions, each of them once; what waits is as it was found, and what is done was redirected
for the document in which it was found.  What waits is never missing, and what is known of a
document is as it will be at the end.  Every run goes from one such moment to the next, and
none of them fails for a name that a document lacks. -/
theorem traverses_once (e : Embedder) (loader : Loader) (root : Json) :
    (∀ m, e.Visits loader root m →
      e.TraversedOnce loader m ∧
      (∀ pending ∈ m.context.worklist, (m.context.definitions.get? pending.name).isSome) ∧
      ∀ m', e.Later loader m m' → e.Final m m') ∧
    (root.isObject = true → ∀ existing, e.existingNames root = .ok existing →
      ∀ steps, ∃ m, e.EndsAt loader root steps m) ∧
    ∀ steps i, (e.run loader steps root).outcome ≠ .failed (.invalidDocument (.noName i)) := by
  refine ⟨fun m hm => ?_, fun hobject existing hexisting => exists_endsAt hobject hexisting,
    fun steps i hfailed => run_possible hfailed i rfl⟩
  obtain ⟨kept, hinv⟩ := hm.invariant
  have honce := hinv.seen.traversedOnce
  refine ⟨honce, fun pending hpending => ?_, fun m' hlater => hinv.final hlater⟩
  obtain ⟨done, waiting, -, hwork, hraw, -⟩ := honce.split
  rw [hwork] at hpending
  obtain ⟨p, hp, rfl⟩ := List.mem_map.mp hpending
  rw [show p.pending.name = p.name from rfl, hraw p hp]
  rfl

/-- The twins put three definitions on the worklist, and no more, although they refer to each
other in a circle. -/
theorem traverses_once_twins :
    ∃ m, standard.Visits (Loader.ofDocuments twins) twinsRoot m ∧
      m.activity = .idle ∧ m.context.worklist = [] ∧ (m.queued.map Piece.name).Nodup ∧
      ∀ name, name ∈ m.queued.map Piece.name ↔ name ∈ ["Size2", "a", "b"] := by
  obtain ⟨hmoments, hends, -⟩ := traverses_once standard (Loader.ofDocuments twins) twinsRoot
  obtain ⟨m, hm⟩ := hends rfl ["Size"] (by cbv) (standard.stepBound twins)
  obtain ⟨out, hout⟩ := twins_done
  obtain ⟨hidle, hwork⟩ := hm.through out hout
  obtain ⟨honce, -, -⟩ := hmoments m hm.visited
  have hnames : m.context.definitions.names = ["Size2", "a", "b"] := by
    rw [hm.context]
    decide +kernel
  refine ⟨m, hm.visited, hidle, hwork, honce.once, fun name => ?_⟩
  rw [← honce.stored, ← hnames]
  exact Entries.isSome_get?_iff

end Embedder

end SchemaBundle
