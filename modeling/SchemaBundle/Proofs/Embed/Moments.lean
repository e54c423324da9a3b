/-
The moments of a run.

A run is cut into small steps here, so that something can be said about it while a document
is being embedded and not only before and after.  A moment is what the run is doing, the
context, and a log of everything that was put on the worklist.  What it is doing names the
value that is being redirected, with the references that are still to be followed, and, in
the midst of them, the document that is being loaded or whose definitions are being named.

One invariant covers all of this.  There is a last context in which nothing was being
embedded, and that one is made of records as `Progress` says; the context of the moment
differs from it by one document, whose pieces are added one by one.
-/
import Mathlib.Logic.Relation
import SchemaBundle.Proofs.Embed.Run

namespace SchemaBundle

/-- What is redirected: the root, or a piece that was taken off the worklist. -/
inductive Subject where
  | root (document : Json)
  | piece (p : Piece)

namespace Subject

/-- The document whose references these are. -/
def scope : Subject → Option String
  | .root _ => none
  | .piece p => some p.identity

def value : Subject → Json
  | .root document => document
  | .piece p => p.content

/-- The piece that is neither on the worklist nor done. -/
def active : Subject → List Piece
  | .root _ => []
  | .piece p => [p]

/-- A piece is put back; the root is kept elsewhere. -/
def put (subject : Subject) (redirected : Json) (c : Context) : Context :=
  match subject with
  | .root _ => c
  | .piece p => c.complete p.name redirected

end Subject

/-- A value that is being redirected. -/
structure Work where
  subject : Subject
  /-- The context in which it was begun. -/
  begun : Context
  /-- The references that are still to be followed. -/
  left : List String

/-- What a run is doing. -/
inductive Activity where
  /-- It is about to take a piece off the worklist. -/
  | idle
  /-- It follows references. -/
  | following (work : Work)
  /-- For the next of them it has given a name to a document, and asks for it. -/
  | loading (work : Work) (identity name : String)
  /-- It has stored that document, and gives names to the rest of its definitions. -/
  | naming (work : Work) (identity : String) (shared named : List (String × String))
      (rest : List (String × Json))

/-- The document that is not embedded yet. -/
def Activity.current? : Activity → Option String
  | .loading _ identity _ => some identity
  | .naming _ identity _ _ _ => some identity
  | _ => none

/-- A moment of a run. -/
structure Moment where
  activity : Activity
  context : Context
  /-- What was put on the worklist so far, in order. -/
  queued : List Piece

/-- The piece that was taken off the worklist and is not done. -/
def Moment.active (m : Moment) : List Piece :=
  match m.activity with
  | .idle => []
  | .following work => work.subject.active
  | .loading work _ _ => work.subject.active
  | .naming work _ _ _ _ => work.subject.active

/-- A value is begun. -/
def Moment.begin (subject : Subject) (c : Context) (queued : List Piece) : Moment :=
  ⟨.following ⟨subject, c, subject.value.refs⟩, c, queued⟩

namespace Embedder

/-- One small step of a run. -/
inductive Next (e : Embedder) (loader : Loader) : Moment → Moment → Prop
  /-- A reference gets its text, when the document it leads to is known. -/
  | pass {subject : Subject} {begun c : Context} {raw text : String} {left : List String}
      {q : List Piece}
      (hknown : ∀ url pointer, e.readLink raw = .ok (.outside url pointer) →
        (c.resource? (Identity.resolve subject.scope url)).isSome)
      (hrun : e.redirectRef loader subject.scope raw c = .ok text c) :
      Next e loader ⟨.following ⟨subject, begun, raw :: left⟩, c, q⟩
        ⟨.following ⟨subject, begun, left⟩, c, q⟩
  /-- A document that is not known gets a name. -/
  | reserve {subject : Subject} {begun c c₁ : Context} {raw url i name : String}
      {pointer : Pointer} {left : List String} {q : List Piece}
      (hlink : e.readLink raw = .ok (.outside url pointer))
      (hi : Identity.resolve subject.scope url = i) (hunknown : c.resource? i = none)
      (hreserve : Embedding.reserveResource i (e.naming i) c = .ok name c₁) :
      Next e loader ⟨.following ⟨subject, begun, raw :: left⟩, c, q⟩
        ⟨.loading ⟨subject, begun, raw :: left⟩ i name,
          { c₁ with loaded := c₁.loaded ++ [i] }, q⟩
  /-- It is loaded and stored, and what it can share is settled. -/
  | store {work : Work} {c : Context} {i name : String} {document body : Json}
      {definitions : List (String × Json)} {q : List Piece}
      (hfetch : loader.fetch i = .ok document)
      (htake : e.mount.takeDefinitions document = (definitions, body)) :
      Next e loader ⟨.loading work i name, c, q⟩
        ⟨.naming work i (Sharing.resolve
            ((c.store i name body).viable e.refTarget i definitions)) [] definitions,
          c.store i name body, q ++ [⟨name, i, body⟩]⟩
  /-- One of its definitions gets a name, and is stored unless the name is shared. -/
  | name {work : Work} {c c' : Context} {i name key : String} {content : Json}
      {shared named : List (String × String)} {rest : List (String × Json)} {q : List Piece}
      (hrun : Embedding.hoistOne i shared key content c = .ok name c') :
      Next e loader ⟨.naming work i shared named ((key, content) :: rest), c, q⟩
        ⟨.naming work i shared (named ++ [(key, name)]) rest, c',
          q ++ if (Entries.get? shared key).isSome then [] else [⟨name, i, content⟩]⟩
  /-- When all of them have names, the document is embedded. -/
  | embed {work : Work} {c : Context} {i : String} {shared named : List (String × String)}
      {resource : Resource} {q : List Piece} (hres : c.resource? i = some resource) :
      Next e loader ⟨.naming work i shared named [], c, q⟩
        ⟨.following work, { c with
          resources := Entries.insert i { resource with localNames := named } c.resources }, q⟩
  /-- When no reference is left, the value is redirected. -/
  | finish {subject : Subject} {begun c : Context} {w : Json} {q : List Piece}
      (hrun : e.redirect loader subject.scope subject.value begun = .ok w c) :
      Next e loader ⟨.following ⟨subject, begun, []⟩, c, q⟩ ⟨.idle, subject.put w c, q⟩
  /-- The piece that waits longest is taken, with what is found under its name. -/
  | take {c : Context} {pending : Pending} {rest : List Pending} {q : List Piece}
      (hwork : c.worklist = pending :: rest) :
      Next e loader ⟨.idle, c, q⟩
        (.begin (.piece ⟨pending.name, pending.identity,
          (c.definitions.get? pending.name).getD .null⟩) { c with worklist := rest } q)

/-- A moment comes later than another one, or is the same. -/
def Later (e : Embedder) (loader : Loader) : Moment → Moment → Prop :=
  Relation.ReflTransGen (e.Next loader)

/-- A run over a root comes to a moment. -/
def Visits (e : Embedder) (loader : Loader) (root : Json) (m : Moment) : Prop :=
  root.isObject = true ∧ ∃ existing, e.existingNames root = .ok existing ∧
    e.Later loader
      (.begin (.root root) (Context.start e.maxSuffix (e.reserved ++ existing)) []) m

/-! ### One moment after the other -/

/-- **What comes next is determined.** -/
theorem Next.unique {e : Embedder} {loader : Loader} {m m₁ m₂ : Moment}
    (h₁ : e.Next loader m m₁) (h₂ : e.Next loader m m₂) : m₁ = m₂ := by
  cases h₁ with
  | pass hknown _ =>
      cases h₂ with
      | pass _ _ => rfl
      | reserve hlink hi hunknown _ =>
          have hsome := hknown _ _ hlink
          rw [hi, hunknown] at hsome
          simp at hsome
  | reserve hlink hi hunknown hreserve =>
      cases h₂ with
      | pass hknown _ =>
          have hsome := hknown _ _ hlink
          rw [hi, hunknown] at hsome
          simp at hsome
      | reserve hlink' hi' _ hreserve' =>
          rw [hlink] at hlink'
          obtain ⟨rfl, rfl⟩ := Link.outside.inj (Except.ok.inj hlink')
          obtain rfl := hi.symm.trans hi'
          rw [hreserve] at hreserve'
          obtain ⟨rfl, rfl⟩ := EStateM.Result.ok.inj hreserve'
          rfl
  | store hfetch htake =>
      cases h₂ with
      | store hfetch' htake' =>
          rw [hfetch] at hfetch'
          obtain rfl := Except.ok.inj hfetch'
          rw [htake] at htake'
          obtain ⟨rfl, rfl⟩ := Prod.mk.inj htake'
          rfl
  | name hrun =>
      cases h₂ with
      | name hrun' =>
          rw [hrun] at hrun'
          obtain ⟨rfl, rfl⟩ := EStateM.Result.ok.inj hrun'
          rfl
  | embed hres =>
      cases h₂ with
      | embed hres' =>
          rw [hres] at hres'
          obtain rfl := Option.some.inj hres'
          rfl
  | finish hrun =>
      cases h₂ with
      | finish hrun' =>
          rw [hrun] at hrun'
          obtain ⟨rfl, -⟩ := EStateM.Result.ok.inj hrun'
          rfl
  | take hwork =>
      cases h₂ with
      | take hwork' =>
          rw [hwork] at hwork'
          obtain ⟨rfl, rfl⟩ := List.cons.inj hwork'
          rfl

/-- Of two moments of a run, one comes after the other. -/
theorem Visits.total {e : Embedder} {loader : Loader} {root : Json} {m m' : Moment}
    (h : e.Visits loader root m) (h' : e.Visits loader root m') :
    e.Later loader m m' ∨ e.Later loader m' m := by
  obtain ⟨-, existing, hexisting, hlater⟩ := h
  obtain ⟨-, existing', hexisting', hlater'⟩ := h'
  obtain rfl := Except.ok.inj (hexisting.symm.trans hexisting')
  exact Relation.ReflTransGen.total_of_right_unique (fun _ _ _ => Next.unique) hlater hlater'

/-! ### The invariant -/

/-- A context in which no document is being embedded. -/
inductive Quiet (e : Embedder) (loader : Loader) (root : Json) (kept : List String)
    (active : List Piece) (c : Context) (q : List Piece) : Prop
  | intro {H : List Record} {done waiting : List Piece}
      (progress : e.Progress loader root kept H done active waiting c)
      (hq : q = H.flatMap Record.pieces)

/-- A value is being redirected, and no document is being embedded. -/
structure Busy (e : Embedder) (loader : Loader) (root : Json) (kept : List String) (work : Work)
    (c : Context) (q : List Piece) : Prop where
  quiet : e.Quiet loader root kept work.subject.active c q
  begun : ∃ q₀, e.Quiet loader root kept work.subject.active work.begun q₀
  left : ∀ raw ∈ work.left, raw ∈ work.subject.value.refs
  demanded : ∀ raw ∈ work.subject.value.refs, ∀ url, e.Names raw url →
    e.Demanded loader root (Identity.resolve work.subject.scope url)

/-- What is known at any moment. While a document is being embedded, `c₀` is the context in
which it was met. -/
inductive Invariant (e : Embedder) (loader : Loader) (root : Json) (kept : List String) :
    Moment → Prop
  | idle {c : Context} {q : List Piece} (h : e.Quiet loader root kept [] c q) :
      Invariant e loader root kept ⟨.idle, c, q⟩
  | following {work : Work} {c : Context} {q : List Piece}
      (h : e.Busy loader root kept work c q) :
      Invariant e loader root kept ⟨.following work, c, q⟩
  | loading {work : Work} {c₀ c₁ : Context} {i name : String} {q : List Piece}
      (h : e.Busy loader root kept work c₀ q)
      (hdemanded : e.Demanded loader root i) (hunknown : c₀.resource? i = none)
      (hreserve : Embedding.reserveResource i (e.naming i) c₀ = .ok name c₁) :
      Invariant e loader root kept
        ⟨.loading work i name, { c₁ with loaded := c₁.loaded ++ [i] }, q⟩
  | naming {work : Work} {c₀ c₁ c : Context} {i name : String} {document body : Json}
      {definitions rest : List (String × Json)} {L : List LocalDefinition} {q₀ : List Piece}
      (h : e.Busy loader root kept work c₀ q₀)
      (hdemanded : e.Demanded loader root i) (hunknown : c₀.resource? i = none)
      (hreserve : Embedding.reserveResource i (e.naming i) c₀ = .ok name c₁)
      (hfetch : loader.fetch i = .ok document)
      (htake : e.mount.takeDefinitions document = (definitions, body))
      (hgives : Context.Gives i
        (Sharing.resolve ((c₁.opened i name body).viable e.refTarget i definitions)) kept
        (q₀ ++ [⟨name, i, body⟩]) (c₁.opened i name body) L c)
      (hrest : definitions = L.map (fun d => (d.key, d.content)) ++ rest) :
      Invariant e loader root kept
        ⟨.naming work i
            (Sharing.resolve ((c₁.opened i name body).viable e.refTarget i definitions))
            (L.map fun d => (d.key, d.name)) rest, c,
          (q₀ ++ [⟨name, i, body⟩]) ++ (L.filter (·.fresh)).map fun d => d.piece i⟩

variable {e : Embedder} {loader : Loader} {root : Json} {kept : List String} {m m' : Moment}
  {work : Work} {c c₀ c₁ c' : Context} {q q₀ : List Piece} {i : String}

theorem invariant_start (e : Embedder) (loader : Loader) (root : Json) (existing : List String) :
    e.Invariant loader root (e.reserved ++ existing)
      (.begin (.root root) (Context.start e.maxSuffix (e.reserved ++ existing)) []) := by
  have hquiet : e.Quiet loader root (e.reserved ++ existing) []
      (Context.start e.maxSuffix (e.reserved ++ existing)) [] :=
    .intro (e.progress_start loader root existing) rfl
  exact .following ⟨hquiet, ⟨_, hquiet⟩, fun raw hraw => hraw,
    fun raw hraw url hnames => Demanded.root hraw hnames⟩

/-- A reference less is left. -/
theorem Busy.tail {subject : Subject} {begun : Context} {raw : String} {left : List String}
    (h : e.Busy loader root kept ⟨subject, begun, raw :: left⟩ c q) :
    e.Busy loader root kept ⟨subject, begun, left⟩ c q :=
  ⟨h.quiet, h.begun, fun raw hraw => h.left raw (List.mem_cons_of_mem _ hraw), h.demanded⟩

/-- The context changes by a whole document. -/
theorem Busy.extend {r : Record} {document : Json} (h : e.Busy loader root kept work c q)
    (hdemanded : e.Demanded loader root r.identity)
    (hfetch : loader.fetch r.identity = .ok document)
    (htake : e.mount.takeDefinitions document = (r.own, r.body))
    (hadm : ∀ H, c.Keeps kept H → q = H.flatMap Record.pieces →
      Context.Admits e.refTarget kept H c r c') :
    e.Busy loader root kept work c' (q ++ r.pieces) := by
  obtain ⟨⟨progress, hq⟩, hbegun, hleft, hwork⟩ := h
  have hadm := hadm _ progress.holds.keeps hq
  refine ⟨.intro (progress.extend hdemanded hfetch htake hadm) ?_, hbegun, hleft, hwork⟩
  rw [List.flatMap_append, List.flatMap_singleton, hq]

/-- The value is redirected, and put back. -/
theorem Busy.finish {subject : Subject} {begun : Context} {left : List String} {w : Json}
    (h : e.Busy loader root kept ⟨subject, begun, left⟩ c q)
    (hrun : e.redirect loader subject.scope subject.value begun = .ok w c) :
    e.Quiet loader root kept [] (subject.put w c) q := by
  obtain ⟨⟨progress, hq⟩, ⟨q₀, ⟨before, -⟩⟩, -, hdemanded⟩ := h
  obtain ⟨-, -, hdone⟩ := before.redirect hdemanded hrun
  cases subject with
  | root document => exact .intro progress hq
  | piece p => exact .intro (progress.complete hdone) hq

/-- The piece that waits longest is what was found, and its references are demanded. -/
theorem Quiet.take {pending : Pending} {rest : List Pending}
    (h : e.Quiet loader root kept [] c q) (hwork : c.worklist = pending :: rest) :
    e.Invariant loader root kept
      (.begin (.piece ⟨pending.name, pending.identity,
        (c.definitions.get? pending.name).getD .null⟩) { c with worklist := rest } q) := by
  obtain ⟨progress, hq⟩ := h
  rw [progress.worklist] at hwork
  obtain ⟨p, waiting, rfl, rfl, rfl⟩ := List.map_eq_cons_iff.mp hwork
  have hraw : (c.definitions.get? p.name).getD .null = p.content := by
    rw [progress.raw p List.mem_cons_self, Option.getD_some]
  have hmem := progress.pieces
  have hquiet : e.Quiet loader root kept [p] { c with worklist := waiting.map Piece.pending } q :=
    .intro progress.take hq
  show e.Invariant loader root kept (.begin (.piece ⟨p.name, p.identity,
    (c.definitions.get? p.name).getD .null⟩) _ q)
  rw [hraw]
  refine .following ⟨hquiet, ⟨q, hquiet⟩, fun raw hraw => hraw, fun raw hraw url hnames => ?_⟩
  refine progress.holds.demanded_of_mem progress.demanded (p := p) ?_ hraw hnames
  rw [hmem]
  simp

/-- One definition more has a name, and is stored if the name is not shared. -/
private theorem map_piece_append {L : List LocalDefinition} {d : LocalDefinition}
    {name? : Option String} (h : d.fresh = name?.isNone) :
    ((L.filter (·.fresh)).map fun d => d.piece i) ++
        (if name?.isSome then [] else [⟨d.name, i, d.content⟩]) =
      ((L ++ [d]).filter (·.fresh)).map fun d => d.piece i := by
  rw [List.filter_append, List.map_append]
  cases name? with
  | none =>
      rw [Option.isNone_none] at h
      simp [h, LocalDefinition.piece]
  | some name =>
      rw [Option.isNone_some] at h
      simp [h]

/-- **Every small step keeps the invariant.** -/
theorem Invariant.step (h : e.Invariant loader root kept m) (hnext : e.Next loader m m') :
    e.Invariant loader root kept m' := by
  cases hnext with
  | pass hknown hrun =>
      cases h with
      | following h => exact .following h.tail
  | reserve hlink hi hunknown hreserve =>
      cases h with
      | following h =>
          refine .loading h ?_ hunknown hreserve
          rw [← hi]
          exact h.demanded _ (h.left _ List.mem_cons_self) _ (readLink_outside.mp hlink).1
  | @store _ _ _ name document body definitions q hfetch htake =>
      cases h with
      | loading h hdemanded hunknown hreserve =>
          obtain ⟨progress, hq⟩ := h.quiet
          have hopened := (Context.stores_opened body progress.holds.keeps hreserve).stored
          rw [← hq] at hopened
          have hnaming := Invariant.naming h hdemanded hunknown hreserve hfetch htake
            (Context.Gives.nil hopened) rfl
          simp only [List.filter_nil, List.map_nil, List.append_nil] at hnaming
          exact hnaming
  | @name _ c c' i _ _ _ shared _ _ _ hrun =>
      cases h with
      | @naming _ _ _ _ _ _ _ _ _ _ L _ h hdemanded hunknown hreserve hfetch htake hgives hrest =>
          -- the definition is one more of those that have names, and the log grows with it
          -- only if it is stored
          obtain ⟨d, rfl, rfl, rfl, hd⟩ := Context.hoistOne_ok hgives.stores.stored hrun
          have hnamed : L.map (fun d => (d.key, d.name)) ++ [(d.key, d.name)] =
              (L ++ [d]).map fun d => (d.key, d.name) := by simp
          rw [List.append_assoc _ _ (ite _ _ _), hnamed, map_piece_append (hd.shares d (by simp)).1]
          exact .naming h hdemanded hunknown hreserve hfetch htake (hgives.trans hd)
            (by simp [hrest])
  | @embed _ c i _ _ resource _ hres =>
      cases h with
      | @naming _ c₀ c₁ _ _ name document body definitions _ L q₀ h hdemanded hunknown hreserve
          hfetch htake hgives hrest =>
          -- all definitions have names, so that the document makes a whole record
          rw [List.append_nil] at hrest
          subst hrest
          obtain ⟨progress, hq⟩ := h.quiet
          obtain ⟨hself, -⟩ := (hq ▸ hgives).admits progress.holds.keeps hunknown hreserve
          obtain rfl := Option.some.inj (hself.symm.trans hres)
          rw [List.append_assoc]
          refine .following (h.extend (r := ⟨i, name, body, L⟩) hdemanded hfetch htake ?_)
          rintro H hk rfl
          exact (hgives.admits hk hunknown hreserve).2
  | finish hrun =>
      cases h with
      | following h => exact .idle (h.finish hrun)
  | take hwork =>
      cases h with
      | idle h => exact h.take hwork

/-- **At every moment that a run comes to, the invariant holds.** -/
theorem Visits.invariant (h : e.Visits loader root m) : ∃ kept, e.Invariant loader root kept m := by
  obtain ⟨-, existing, -, hlater⟩ := h
  refine ⟨e.reserved ++ existing, ?_⟩
  induction hlater with
  | refl => exact e.invariant_start loader root existing
  | tail _ hnext ih => exact ih.step hnext

/-! ### What it says about the worklist -/

/-- The context of a moment, seen from the last one in which nothing was being embedded: the
pieces of one document may have come to it. -/
inductive Seen (e : Embedder) (loader : Loader) (root : Json) (kept : List String) (m : Moment) :
    Prop
  | intro {c₀ : Context} {H : List Record} {done waiting new : List Piece}
      (progress : e.Progress loader root kept H done m.active waiting c₀)
      (hqueued : m.queued = H.flatMap Record.pieces ++ new)
      (hstores : Context.Stores kept (H.flatMap Record.pieces) c₀ new m.context)
      (hfound : ∀ p ∈ new, e.FoundIn loader p.identity p.content)
      (hres : ∀ j resource, c₀.resource? j = some resource → m.context.resource? j = some resource)

theorem Invariant.seen (h : e.Invariant loader root kept m) : e.Seen loader root kept m := by
  cases h with
  | idle h =>
      obtain ⟨progress, hq⟩ := h
      exact .intro progress (by rw [List.append_nil, hq]) (.nil progress.holds.keeps.stored)
        (by simp) fun _ _ hres => hres
  | following h =>
      obtain ⟨progress, hq⟩ := h.quiet
      exact .intro progress (by rw [List.append_nil, hq]) (.nil progress.holds.keeps.stored)
        (by simp) fun _ _ hres => hres
  | @loading _ c₀ c₁ i _ _ h hdemanded hunknown hreserve =>
      obtain @⟨H, done, waiting, progress, hq⟩ := h.quiet
      obtain ⟨-, htaken, -, -, hdefs, hwork, -⟩ := Context.reserveResource_ok hreserve
      have hstored : Context.Stored kept (H.flatMap Record.pieces)
          { c₁ with loaded := c₁.loaded ++ [i] } := by
        refine progress.holds.keeps.stored.grow hdefs fun name hname => ?_
        show name ∈ c₁.allocator.taken
        rw [htaken]
        exact List.mem_cons_of_mem _ hname
      have hstores : Context.Stores kept (H.flatMap Record.pieces) c₀ []
          { c₁ with loaded := c₁.loaded ++ [i] } := by
        refine ⟨by rwa [List.append_nil], ?_, by simp, fun name _ => ?_⟩
        · rw [List.map_nil, List.append_nil]
          exact hwork
        · show c₁.definitions.get? name = _
          rw [hdefs]
      refine .intro progress (by rw [List.append_nil, hq]) hstores (by simp)
        fun j resource hres => ?_
      refine (Context.resource?_reserve_ne (fun heq => ?_) hreserve).trans hres
      rw [heq, hunknown] at hres
      simp at hres
  | @naming _ c₀ c₁ c i name document body _ _ L _ h hdemanded hunknown hreserve hfetch htake
      hgives hrest =>
      obtain ⟨progress, rfl⟩ := h.quiet
      have hopened := Context.stores_opened body progress.holds.keeps hreserve
      refine .intro progress (List.append_assoc _ _ _) (hopened.trans hgives.stores) ?_ ?_
      · intro p hp
        refine foundIn_of_mem_pieces (r := ⟨i, name, body, L⟩) hfetch htake ?_ hp
        intro entry hentry
        rw [hrest]
        exact List.mem_append_left _ hentry
      · intro j resource hres
        have hne : j ≠ i := by
          rintro rfl
          rw [hunknown] at hres
          simp at hres
        show Entries.get? c.resources j = _
        rw [hgives.resources]
        exact (Context.resource?_opened_ne hne hreserve).trans hres

/-- Every definition is traversed once, as far as a moment shows. -/
structure TraversedOnce (e : Embedder) (loader : Loader) (m : Moment) : Prop where
  /-- No name was put on the worklist twice. -/
  once : (m.queued.map Piece.name).Nodup
  /-- The names that were put on it are the names of the definitions. -/
  stored : ∀ name, (m.context.definitions.get? name).isSome ↔ name ∈ m.queued.map Piece.name
  /-- What is put on it was found in a document. -/
  found : ∀ p ∈ m.queued, e.FoundIn loader p.identity p.content
  /-- It is taken off in that order. What is still on it is as it was found, and what is done
  is what was found, redirected for the document in which it was found. -/
  split : ∃ done waiting, m.queued = done ++ m.active ++ waiting ∧
    m.context.worklist = waiting.map Piece.pending ∧
    (∀ p ∈ waiting, m.context.definitions.get? p.name = some p.content) ∧
    ∀ p ∈ done, ∃ w, m.context.definitions.get? p.name = some w ∧
      e.redirect loader (some p.identity) p.content m.context = .ok w m.context

theorem Seen.traversedOnce (h : e.Seen loader root kept m) : e.TraversedOnce loader m := by
  obtain ⟨progress, hqueued, hstores, hfound, hres⟩ := h
  rename_i c₀ H done waiting new
  have hstored := hstores.stored
  rw [← hqueued] at hstored
  have hsplit : m.queued = done ++ m.active ++ (waiting ++ new) := by
    rw [hqueued, progress.pieces, List.append_assoc _ waiting]
  -- a piece of the document that is being embedded has a name of its own
  have hother : ∀ p ∈ done ++ m.active ++ waiting,
      m.context.definitions.get? p.name = c₀.definitions.get? p.name := by
    intro p hp
    refine hstores.others p.name fun hmem => ?_
    have hnd := hstored.nodup
    rw [hqueued, progress.pieces, List.map_append, List.nodup_append] at hnd
    exact hnd.2.2 _ (List.mem_map_of_mem hp) _ hmem rfl
  refine ⟨hstored.nodup, hstored.contains, ?_, done, waiting ++ new, hsplit, ?_, ?_, ?_⟩
  · intro p hp
    rw [hqueued] at hp
    rcases List.mem_append.mp hp with hp | hp
    · exact progress.holds.foundIn hp
    · exact hfound p hp
  · rw [hstores.worklist, progress.worklist, List.map_append]
  · intro p hp
    rcases List.mem_append.mp hp with hp | hp
    · rw [hother p (List.mem_append_right _ hp)]
      exact progress.raw p hp
    · exact hstores.content p hp
  · intro p hp
    obtain ⟨w, hw, hdone⟩ := progress.finished p hp
    refine ⟨w, ?_, (hdone.mono hres).redirect_eq⟩
    rw [hother p (List.mem_append_left _ (List.mem_append_left _ hp))]
    exact hw

/-! ### What is known stays -/

theorem Invariant.later (h : e.Invariant loader root kept m) (hlater : e.Later loader m m') :
    e.Invariant loader root kept m' := by
  induction hlater with
  | refl => exact h
  | tail _ hnext ih => exact ih.step hnext

/-- The name of a document stays, and its whole place once it is embedded. -/
structure Remains (m m' : Moment) (i : String) (resource : Resource) : Prop where
  name : ∃ later, m'.context.resource? i = some later ∧ later.name = resource.name
  place : m.activity.current? ≠ some i →
    m'.activity.current? ≠ some i ∧ m'.context.resource? i = some resource

variable {resource : Resource}

/-- A step that does not touch the places, and takes up no document. -/
theorem Remains.of_eq (hres : m.context.resource? i = some resource)
    (hcontext : m'.context.resource? i = m.context.resource? i)
    (hcurrent : m.activity.current? ≠ some i → m'.activity.current? ≠ some i) :
    Remains m m' i resource :=
  ⟨⟨resource, hcontext.trans hres, rfl⟩, fun hne => ⟨hcurrent hne, hcontext.trans hres⟩⟩

theorem Invariant.remains (h : e.Invariant loader root kept m) (hnext : e.Next loader m m')
    (hres : m.context.resource? i = some resource) : Remains m m' i resource := by
  cases hnext with
  | pass _ _ => exact .of_eq hres rfl fun _ => nofun
  | @reserve _ _ c c₁ _ _ j _ _ _ _ _ _ hunknown hreserve =>
      have hne : i ≠ j := by
        rintro rfl
        rw [show c.resource? i = some resource from hres] at hunknown
        simp at hunknown
      refine .of_eq hres ?_ fun _ heq => hne (Option.some.inj heq).symm
      show c₁.resource? i = c.resource? i
      exact Context.resource?_reserve_ne hne hreserve
  | store _ _ => exact .of_eq hres rfl fun hne => hne
  | name hrun =>
      cases h with
      | naming _ _ _ _ _ _ hgives _ =>
          obtain ⟨d, -, -, -, hd⟩ := Context.hoistOne_ok hgives.stores.stored hrun
          refine .of_eq hres ?_ fun hne => hne
          show Entries.get? _ i = Entries.get? _ i
          rw [hd.resources]
  | @embed _ c j _ _ found _ hfound =>
      by_cases heq : j = i
      · subst heq
        obtain rfl := Option.some.inj (hfound.symm.trans hres)
        refine ⟨⟨_, Entries.get?_insert_self _ _ _, rfl⟩, fun hne => absurd rfl hne⟩
      · exact .of_eq hres (Entries.get?_insert_ne heq) fun _ => nofun
  | @finish subject _ _ _ _ _ =>
      refine .of_eq hres ?_ fun _ => nofun
      cases subject <;> rfl
  | take _ => exact .of_eq hres rfl fun _ => nofun

/-- **What is known stays known**, under the same name and, once it is embedded, with the same
names for its definitions. -/
theorem Invariant.remains_later (h : e.Invariant loader root kept m)
    (hlater : e.Later loader m m') (hres : m.context.resource? i = some resource) :
    Remains m m' i resource := by
  induction hlater with
  | refl => exact .of_eq hres rfl fun hne => hne
  | tail hbefore hnext ih =>
      have hinv := h.later hbefore
      obtain ⟨later, hlater, hname⟩ := ih.name
      obtain ⟨last, hlast, hname'⟩ := (hinv.remains hnext hlater).name
      refine ⟨⟨last, hlast, hname'.trans hname⟩, fun hne => ?_⟩
      obtain ⟨hne', hsame⟩ := ih.place hne
      exact (hinv.remains hnext hsame).place hne'

/-- What is said about a document at one moment is said at a later one. -/
structure Final (e : Embedder) (m m' : Moment) : Prop where
  /-- Every document has its final name. -/
  name : ∀ i resource, m.context.resource? i = some resource →
    ∃ later, m'.context.resource? i = some later ∧ later.name = resource.name
  /-- An embedded one has the final names of its definitions. -/
  place : ∀ i resource, m.activity.current? ≠ some i → m.context.resource? i = some resource →
    m'.context.resource? i = some resource
  /-- So a reference into it has its final text. -/
  target : ∀ i pointer text, m.activity.current? ≠ some i →
    e.target i pointer m.context = .ok text m.context →
    e.target i pointer m'.context = .ok text m'.context

theorem Invariant.final (h : e.Invariant loader root kept m) (hlater : e.Later loader m m') :
    e.Final m m' := by
  refine ⟨fun i resource hres => (h.remains_later hlater hres).name,
    fun i resource hne hres => ((h.remains_later hlater hres).place hne).2, ?_⟩
  intro i pointer text hne htarget
  obtain ⟨hsome, -, rfl⟩ := target_eq_ok.mp htarget
  obtain ⟨resource, hres⟩ := Option.isSome_iff_exists.mp hsome
  have hsame := ((h.remains_later hlater hres).place hne).2
  refine target_eq_ok.mpr ⟨by rw [hsame]; rfl, rfl, ?_⟩
  simp only [placeIn, hres, hsame]

end Embedder

end SchemaBundle
