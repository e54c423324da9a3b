/-
What a whole run does.

At any moment the stored pieces fall into three groups, in the order in which they were
stored: those that are done, the one that is being redirected, and those that wait on
the worklist.  A waiting piece is still what was found in its document; a piece that is
done has every reference followed and every text replaced by the place where it leads.
Documents that are embedded on the way only ever add pieces at the end.

That a piece which is done stays right is the point of reserving names before anything
is read: what is known about a document never changes, so the place of a reference read
off the context of today is the place read off the last one.
-/
import SchemaBundle.Proofs.Documents
import SchemaBundle.Proofs.Embed.Shared
import SchemaBundle.Proofs.Mount

namespace SchemaBundle

variable {e : Embedder} {loader : Loader} {root : Json} {kept : List String} {H : List Record}
  {scope : Option String} {c c' : Context}

namespace Embedder

/-- The documents that have to be embedded with a root: those that it names, and those
that such a document names, in its body or in a definition of its own. -/
inductive Demanded (e : Embedder) (loader : Loader) (root : Json) : String → Prop
  | root {raw url : String} (hraw : raw ∈ root.refs) (hnames : e.Names raw url) :
      Demanded e loader root (Identity.resolve none url)
  | body {i raw url : String} {document : Json} (hi : Demanded e loader root i)
      (hdocument : loader i = .ok document)
      (hraw : raw ∈ (e.mount.takeDefinitions document).2.refs) (hnames : e.Names raw url) :
      Demanded e loader root (Identity.resolve (some i) url)
  | own {i raw url key : String} {document content : Json} (hi : Demanded e loader root i)
      (hdocument : loader i = .ok document)
      (hcontent : (key, content) ∈ (e.mount.takeDefinitions document).1)
      (hraw : raw ∈ content.refs) (hnames : e.Names raw url) :
      Demanded e loader root (Identity.resolve (some i) url)

/-! ### What is known at any moment -/

/-- A context of a run: it is made of records of documents that were loaded, and names
are shared as they should be. -/
structure Holds (e : Embedder) (loader : Loader) (kept : List String) (H : List Record)
    (c : Context) : Prop where
  keeps : c.Keeps kept H
  documents : ∀ r ∈ H, ∃ document, loader.fetch r.identity = .ok document ∧
    e.mount.takeDefinitions document = (r.own, r.body)
  sound : loader.Ordered → e.Sound H

/-- A value was found in a document: it is the document without its own definitions, or one
of these. -/
def FoundIn (e : Embedder) (loader : Loader) (i : String) (v : Json) : Prop :=
  ∃ document, loader i = .ok document ∧
    (v = (e.mount.takeDefinitions document).2 ∨
      ∃ key, (key, v) ∈ (e.mount.takeDefinitions document).1)

/-- What is stored for a document was found in it. -/
theorem foundIn_of_mem_pieces {r : Record} {p : Piece} {document : Json}
    {definitions : List (String × Json)} (hfetch : loader.fetch r.identity = .ok document)
    (htake : e.mount.takeDefinitions document = (definitions, r.body))
    (hown : ∀ entry ∈ r.own, entry ∈ definitions) (hp : p ∈ r.pieces) :
    e.FoundIn loader p.identity p.content := by
  rcases Record.mem_pieces.mp hp with rfl | ⟨d, hd, -, rfl⟩
  · exact ⟨document, Loader.of_fetch hfetch, Or.inl (by rw [htake])⟩
  · refine ⟨document, Loader.of_fetch hfetch, Or.inr ⟨d.key, ?_⟩⟩
    rw [htake]
    exact hown _ (List.mem_map.mpr ⟨d, hd, rfl⟩)

theorem Holds.foundIn {p : Piece} (h : e.Holds loader kept H c)
    (hp : p ∈ H.flatMap Record.pieces) : e.FoundIn loader p.identity p.content := by
  obtain ⟨r, hr, hp⟩ := List.mem_flatMap.mp hp
  obtain ⟨document, hfetch, htake⟩ := h.documents r hr
  exact foundIn_of_mem_pieces hfetch htake (fun _ hentry => hentry) hp

theorem holds_start (e : Embedder) (loader : Loader) (maxSuffix : Nat) (kept : List String) :
    e.Holds loader kept [] (Context.start maxSuffix kept) where
  keeps := Context.keeps_start maxSuffix kept
  documents := by simp
  sound := fun _ => e.sound_nil

theorem Holds.extend {r : Record} {document : Json} (h : e.Holds loader kept H c)
    (hfetch : loader.fetch r.identity = .ok document)
    (htake : e.mount.takeDefinitions document = (r.own, r.body))
    (hadm : Context.Admits e.refTarget kept H c r c') : e.Holds loader kept (H ++ [r]) c' where
  keeps := hadm.keeps
  documents := List.forall_mem_append.mpr
    ⟨h.documents, List.forall_mem_singleton.mpr ⟨document, hfetch, htake⟩⟩
  sound := by
    intro hl
    refine (h.sound hl).extend h.keeps hadm ?_
    have hsorted : Entries.Sorted (e.mount.takeDefinitions document).1 :=
      MountPath.takeDefinitions_sorted (hl _ _ (Loader.of_fetch hfetch))
    rw [htake] at hsorted
    exact r.keys_own ▸ hsorted.keys_nodup

/-- The content of a definition may change, and the worklist. -/
theorem Holds.complete {name : String} (h : e.Holds loader kept H c) (v : Json)
    (hname : c.definitions.contains name = true) : e.Holds loader kept H (c.complete name v) where
  keeps := ⟨h.keeps.stored.complete v hname, h.keeps.loaded, h.keeps.unique, h.keeps.resources,
    h.keeps.hoisted, h.keeps.fresh⟩
  documents := h.documents
  sound := h.sound

theorem Holds.take (h : e.Holds loader kept H c) (worklist : List Pending) :
    e.Holds loader kept H { c with worklist } where
  keeps := ⟨h.keeps.stored.congr rfl rfl, h.keeps.loaded, h.keeps.unique, h.keeps.resources,
    h.keeps.hoisted, h.keeps.fresh⟩
  documents := h.documents
  sound := h.sound

/-- **The places of documents that are known never change.** -/
theorem Holds.resource?_mono {H' : List Record} (h : e.Holds loader kept H c)
    (h' : e.Holds loader kept (H ++ H') c') {identity : String} {resource : Resource}
    (hres : c.resource? identity = some resource) : c'.resource? identity = some resource := by
  obtain ⟨r, hr, hid, heq⟩ := (h.keeps.resources _ _).mp hres
  exact (h'.keeps.resources _ _).mpr ⟨r, List.mem_append_left _ hr, hid, heq⟩

theorem Settled.mono {raw : String} (h : e.Settled c scope raw)
    (hext : ∀ identity resource, c.resource? identity = some resource →
      c'.resource? identity = some resource) :
    e.Settled c' scope raw ∧
      e.retarget (e.placeIn c) scope raw = e.retarget (e.placeIn c') scope raw := by
  refine ⟨⟨h.reads, fun i p hi => ?_⟩, ?_⟩
  · obtain ⟨resource, hres⟩ := Option.isSome_iff_exists.mp (h.known i p hi)
    rw [hext i resource hres]
    rfl
  · unfold retarget
    cases hleads : e.leadsTo? scope raw with
    | none => rfl
    | some place =>
        obtain ⟨i, p⟩ := place
        obtain ⟨resource, hres⟩ := Option.isSome_iff_exists.mp (h.known i p hleads)
        simp only [placeIn, hres, hext i resource hres]

/-- A value whose references have all been followed, and what it has become. -/
structure Done (e : Embedder) (c : Context) (scope : Option String) (v w : Json) : Prop where
  settled : ∀ raw ∈ v.refs, e.Settled c scope raw
  eq : w = v.mapRefs (e.retarget (e.placeIn c) scope)

theorem Done.mono {v w : Json} (h : e.Done c scope v w)
    (hext : ∀ identity resource, c.resource? identity = some resource →
      c'.resource? identity = some resource) : e.Done c' scope v w where
  settled := fun raw hraw => ((h.settled raw hraw).mono hext).1
  eq := h.eq.trans (Json.mapRefs_congr v fun raw hraw => ((h.settled raw hraw).mono hext).2)

/-- To redirect the value again gives what it has become, and changes nothing. -/
theorem Done.redirect_eq {v w : Json} (h : e.Done c scope v w) :
    e.redirect loader scope v c = .ok w c := by
  rw [h.eq]
  exact redirect_of_refs fun raw hraw => (h.settled raw hraw).redirectRef_eq

/-- The state of a run: what is done, what is being redirected, and what waits. -/
structure Progress (e : Embedder) (loader : Loader) (root : Json) (kept : List String)
    (H : List Record) (done active waiting : List Piece) (c : Context) : Prop where
  holds : e.Holds loader kept H c
  demanded : ∀ r ∈ H, e.Demanded loader root r.identity
  pieces : H.flatMap Record.pieces = done ++ active ++ waiting
  worklist : c.worklist = waiting.map Piece.pending
  raw : ∀ p ∈ waiting, c.definitions.get? p.name = some p.content
  finished : ∀ p ∈ done, ∃ w, c.definitions.get? p.name = some w ∧
    e.Done c (some p.identity) p.content w

theorem progress_start (e : Embedder) (loader : Loader) (root : Json) (existing : List String) :
    e.Progress loader root (e.reserved ++ existing) [] [] [] []
      (Context.start e.maxSuffix (e.reserved ++ existing)) :=
  ⟨e.holds_start loader _ _, by simp, rfl, rfl, by simp, by simp⟩

variable {done active waiting : List Piece}

/-! ### Embedding on the way -/

/-- A document that is embedded adds its pieces to those that wait, and touches no other. -/
theorem Progress.extend {r : Record} {document : Json}
    (h : e.Progress loader root kept H done active waiting c)
    (hdemanded : e.Demanded loader root r.identity)
    (hfetch : loader.fetch r.identity = .ok document)
    (htake : e.mount.takeDefinitions document = (r.own, r.body))
    (hadm : Context.Admits e.refTarget kept H c r c') :
    e.Progress loader root kept (H ++ [r]) done active (waiting ++ r.pieces) c' := by
  have hholds := h.holds.extend hfetch htake hadm
  -- a piece that was stored before has a name of its own
  have hother : ∀ p ∈ done ++ active ++ waiting, p.name ∉ r.pieces.map Piece.name := by
    intro p hp hmem
    have hnd := hadm.stores.stored.nodup
    rw [List.map_append, List.nodup_append] at hnd
    exact hnd.2.2 _ (List.mem_map_of_mem (h.pieces ▸ hp)) _ hmem rfl
  refine ⟨hholds, ?_, ?_, ?_, ?_, ?_⟩
  · exact List.forall_mem_append.mpr
      ⟨h.demanded, List.forall_mem_singleton.mpr hdemanded⟩
  · rw [List.flatMap_append, h.pieces, List.flatMap_singleton, List.append_assoc]
  · rw [hadm.stores.worklist, h.worklist, List.map_append]
  · intro p hp
    rcases List.mem_append.mp hp with hp | hp
    · rw [hadm.stores.others p.name (hother p (by simp [hp]))]
      exact h.raw p hp
    · exact hadm.stores.content p hp
  · intro p hp
    obtain ⟨w, hw, hdone⟩ := h.finished p hp
    refine ⟨w, ?_, hdone.mono fun i resource => h.holds.resource?_mono hholds⟩
    rw [hadm.stores.others p.name (hother p (by simp [hp]))]
    exact hw

theorem Progress.embed {identity : String}
    (h : e.Progress loader root kept H done active waiting c)
    (hdemanded : e.Demanded loader root identity)
    (hrun : e.ensureEmbedded loader identity c = .ok () c') :
    ∃ H', e.Progress loader root kept (H ++ H') done active
      (waiting ++ H'.flatMap Record.pieces) c' := by
  rcases ensureEmbedded_ok h.holds.keeps hrun with
    ⟨rfl, -⟩ | ⟨r, document, rfl, hfetch, htake, hadm⟩
  · exact ⟨[], by simpa using h⟩
  · refine ⟨[r], ?_⟩
    rw [List.flatMap_singleton]
    exact h.extend hdemanded hfetch htake hadm

/-- Following references in order: documents are embedded, and the texts are the places
where the references lead in the end. -/
theorem Progress.follow {raws texts : List String}
    (h : e.Progress loader root kept H done active waiting c)
    (hraws : ∀ raw ∈ raws, ∀ url, e.Names raw url →
      e.Demanded loader root (Identity.resolve scope url))
    (hrun : Follows e loader scope raws texts c c') :
    ∃ H', e.Progress loader root kept (H ++ H') done active
        (waiting ++ H'.flatMap Record.pieces) c' ∧
      (∀ raw ∈ raws, e.Settled c' scope raw) ∧
      texts = raws.map (e.retarget (e.placeIn c') scope) := by
  induction hrun generalizing H waiting with
  | nil c => exact ⟨[], by simpa using h, by simp, rfl⟩
  | @cons raw text raws texts c c₁ c' first _ ih =>
      obtain ⟨hembed, hsettled, rfl⟩ := redirectRef_ok first
      have hfirst : ∃ H₁, e.Progress loader root kept (H ++ H₁) done active
          (waiting ++ H₁.flatMap Record.pieces) c₁ := by
        rcases hembed with rfl | ⟨url, pointer, hlink, hembed⟩
        · exact ⟨[], by simpa using h⟩
        · exact h.embed (hraws raw List.mem_cons_self url (readLink_outside.mp hlink).1) hembed
      obtain ⟨H₁, h₁⟩ := hfirst
      obtain ⟨H₂, h₂, hrest, rfl⟩ := ih h₁ fun r hr => hraws r (List.mem_cons_of_mem _ hr)
      have hmono := hsettled.mono fun i resource => h₁.holds.resource?_mono h₂.holds
      refine ⟨H₁ ++ H₂, ?_, ?_, ?_⟩
      · rw [List.flatMap_append, ← List.append_assoc, ← List.append_assoc]
        exact h₂
      · intro r hr
        rcases List.mem_cons.mp hr with rfl | hr
        · exact hmono.1
        · exact hrest r hr
      · rw [List.map_cons, hmono.2]

/-- Redirecting a value. -/
theorem Progress.redirect {v w : Json}
    (h : e.Progress loader root kept H done active waiting c)
    (hrefs : ∀ raw ∈ v.refs, ∀ url, e.Names raw url →
      e.Demanded loader root (Identity.resolve scope url))
    (hrun : e.redirect loader scope v c = .ok w c') :
    ∃ H', e.Progress loader root kept (H ++ H') done active
        (waiting ++ H'.flatMap Record.pieces) c' ∧
      e.Done c' scope v w := by
  obtain ⟨texts, hfollows, hw⟩ := redirect_follows hrun
  obtain ⟨H', h', hsettled, htexts⟩ := h.follow hrefs hfollows
  exact ⟨H', h', hsettled, hw _ htexts⟩

/-! ### The worklist -/

/-- The piece that waits longest is taken. -/
theorem Progress.take {p : Piece} (h : e.Progress loader root kept H done [] (p :: waiting) c) :
    e.Progress loader root kept H done [p] waiting
      { c with worklist := waiting.map Piece.pending } where
  holds := h.holds.take _
  demanded := h.demanded
  pieces := by rw [h.pieces, List.append_nil, List.append_assoc, List.singleton_append]
  worklist := rfl
  raw := fun q hq => h.raw q (List.mem_cons_of_mem _ hq)
  finished := by
    intro q hq
    obtain ⟨w, hw, hdone⟩ := h.finished q hq
    exact ⟨w, hw, hdone.mono fun _ _ hres => hres⟩

/-- What a stored piece names is demanded. -/
theorem Holds.demanded_of_mem {p : Piece} (h : e.Holds loader kept H c)
    (hdemanded : ∀ r ∈ H, e.Demanded loader root r.identity)
    (hp : p ∈ H.flatMap Record.pieces) {raw url : String} (hraw : raw ∈ p.content.refs)
    (hnames : e.Names raw url) :
    e.Demanded loader root (Identity.resolve (some p.identity) url) := by
  obtain ⟨r, hr, hp⟩ := List.mem_flatMap.mp hp
  obtain ⟨document, hfetch, htake⟩ := h.documents r hr
  have hi := hdemanded r hr
  have hdocument := Loader.of_fetch hfetch
  rcases Record.mem_pieces.mp hp with rfl | ⟨d, hd, -, rfl⟩
  · exact Demanded.body hi hdocument (by rw [htake]; exact hraw) hnames
  · have hown : (d.key, d.content) ∈ r.own := List.mem_map.mpr ⟨d, hd, rfl⟩
    exact Demanded.own hi hdocument (by rw [htake]; exact hown) hraw hnames

/-- The piece that was taken is put back, redirected. -/
theorem Progress.complete {p : Piece} {w : Json}
    (h : e.Progress loader root kept H done [p] waiting c)
    (hw : e.Done c (some p.identity) p.content w) :
    e.Progress loader root kept H (done ++ [p]) [] waiting (c.complete p.name w) := by
  have hnd := h.holds.keeps.stored.nodup
  rw [h.pieces] at hnd
  have hother : ∀ q ∈ done ++ waiting, p.name ≠ q.name := by
    intro q hq heq
    rw [List.append_assoc, List.singleton_append, List.map_append, List.map_cons,
      List.nodup_middle, List.nodup_cons, ← List.map_append] at hnd
    exact hnd.1 (heq ▸ List.mem_map_of_mem hq)
  have hget : ∀ q ∈ done ++ waiting,
      (c.complete p.name w).definitions.get? q.name = c.definitions.get? q.name :=
    fun q hq => Entries.get?_insert_ne (hother q hq)
  have hself : (c.complete p.name w).definitions.get? p.name = some w :=
    Entries.get?_insert_self _ _ _
  have hcontains : c.definitions.contains p.name = true := by
    refine (h.holds.keeps.stored.contains p.name).mpr ?_
    rw [h.pieces]
    simp
  refine ⟨h.holds.complete w hcontains, h.demanded, ?_, h.worklist, ?_, ?_⟩
  · rw [h.pieces, List.append_nil]
  · intro q hq
    rw [hget q (List.mem_append_right _ hq)]
    exact h.raw q hq
  · intro q hq
    rcases List.mem_append.mp hq with hq | hq
    · obtain ⟨w', hw', hdone⟩ := h.finished q hq
      rw [hget q (List.mem_append_left _ hq)]
      exact ⟨w', hw', hdone.mono fun _ _ hres => hres⟩
    · rw [List.mem_singleton.mp hq]
      exact ⟨w, hself, hw.mono fun _ _ hres => hres⟩

/-- A step takes the piece that waits longest, redirects it, and puts it back. -/
theorem step_ok {more : Bool} (h : e.step loader c = .ok more c') :
    (c.worklist = [] ∧ more = false ∧ c' = c) ∨
      ∃ pending rest w c₂, c.worklist = pending :: rest ∧ more = true ∧
        e.redirect loader (some pending.identity)
          ((c.definitions.get? pending.name).getD .null) { c with worklist := rest } =
            .ok w c₂ ∧
        c' = c₂.complete pending.name w := by
  unfold Embedder.step at h
  simp only [Embedding.bind_eq_ok, Embedding.get_eq_ok] at h
  obtain ⟨a, c₀, ⟨rfl, rfl⟩, h⟩ := h
  cases hwork : c.worklist with
  | nil =>
      rw [hwork] at h
      obtain ⟨rfl, rfl⟩ := Embedding.pure_eq_ok.mp h
      exact Or.inl ⟨rfl, rfl, rfl⟩
  | cons pending rest =>
      rw [hwork] at h
      simp only [Embedding.bind_eq_ok, Embedding.set_eq_ok, Embedding.modify_eq_ok,
        Embedding.pure_eq_ok] at h
      obtain ⟨-, c₁, rfl, w, c₂, hredirect, -, c₃, rfl, rfl, rfl⟩ := h
      exact Or.inr ⟨pending, rest, w, c₂, rfl, rfl, hredirect, rfl⟩

/-- The piece that waits longest is still what was found. -/
theorem Progress.head {pending : Pending} {rest : List Pending}
    (h : e.Progress loader root kept H done [] waiting c) (hwork : c.worklist = pending :: rest) :
    ∃ p waiting', waiting = p :: waiting' ∧ p.pending = pending ∧
      rest = waiting'.map Piece.pending ∧ p ∈ H.flatMap Record.pieces ∧
      (c.definitions.get? pending.name).getD .null = p.content := by
  rw [h.worklist] at hwork
  obtain ⟨p, waiting', rfl, rfl, rfl⟩ := List.map_eq_cons_iff.mp hwork
  refine ⟨p, waiting', rfl, rfl, rfl, ?_, ?_⟩
  · rw [h.pieces]
    simp
  · rw [show p.pending.name = p.name from rfl, h.raw p List.mem_cons_self, Option.getD_some]

theorem Progress.step_cases {more : Bool}
    (h : e.Progress loader root kept H done [] waiting c)
    (hrun : e.step loader c = .ok more c') :
    (waiting = [] ∧ more = false ∧ c' = c) ∨
      ∃ p rest w c₂, waiting = p :: rest ∧ more = true ∧ p ∈ H.flatMap Record.pieces ∧
        e.Progress loader root kept H done [p] rest
          { c with worklist := rest.map Piece.pending } ∧
        e.redirect loader (some p.identity) p.content
          { c with worklist := rest.map Piece.pending } = .ok w c₂ ∧
        c' = c₂.complete p.name w := by
  rcases step_ok hrun with ⟨hwork, rfl, rfl⟩ | ⟨pending, rest, w, c₂, hwork, rfl, hredirect, rfl⟩
  · rw [h.worklist, List.map_eq_nil_iff] at hwork
    exact Or.inl ⟨hwork, rfl, rfl⟩
  · obtain ⟨p, waiting', rfl, rfl, rfl, hmem, hraw⟩ := h.head hwork
    rw [hraw] at hredirect
    exact Or.inr ⟨p, waiting', w, c₂, rfl, rfl, hmem, h.take, hredirect, rfl⟩

theorem Progress.step {more : Bool} (h : e.Progress loader root kept H done [] waiting c)
    (hrun : e.step loader c = .ok more c') :
    (waiting = [] ∧ more = false ∧ c' = c) ∨
      ∃ p rest H', waiting = p :: rest ∧ more = true ∧
        e.Progress loader root kept (H ++ H') (done ++ [p]) []
          (rest ++ H'.flatMap Record.pieces) c' := by
  rcases h.step_cases hrun with hnone | ⟨p, rest, w, c₂, rfl, rfl, hmem, htaken, hredirect, rfl⟩
  · exact Or.inl hnone
  · obtain ⟨H', h', hdone⟩ := htaken.redirect
      (fun raw hraw url hnames => h.holds.demanded_of_mem h.demanded hmem hraw hnames) hredirect
    exact Or.inr ⟨p, rest, H', rfl, rfl, h'.complete hdone⟩

/-- However many steps are taken, everything stored is done or waits; and if the run
says that it is through, nothing waits. -/
theorem Progress.drain {steps : Nat} {through : Bool}
    (h : e.Progress loader root kept H done [] waiting c)
    (hrun : e.drain loader steps c = .ok through c') :
    ∃ H' done' waiting', e.Progress loader root kept (H ++ H') done' [] waiting' c' ∧
      (through = true → waiting' = []) := by
  induction steps generalizing H done waiting c with
  | zero =>
      unfold Embedder.drain at hrun
      simp only [Embedding.bind_eq_ok, Embedding.get_eq_ok, Embedding.pure_eq_ok] at hrun
      obtain ⟨a, c₀, ⟨rfl, rfl⟩, rfl, rfl⟩ := hrun
      refine ⟨[], done, waiting, by rwa [List.append_nil], fun hempty => ?_⟩
      rw [h.worklist] at hempty
      simpa using hempty
  | succ steps ih =>
      unfold Embedder.drain at hrun
      obtain ⟨more, c₁, hstep, hrest⟩ := Embedding.bind_eq_ok.mp hrun
      rcases h.step hstep with ⟨rfl, rfl, rfl⟩ | ⟨p, rest, H₁, rfl, rfl, h₁⟩
      · rw [if_neg Bool.false_ne_true] at hrest
        obtain ⟨rfl, rfl⟩ := Embedding.pure_eq_ok.mp hrest
        exact ⟨[], done, [], by rwa [List.append_nil], fun _ => rfl⟩
      · rw [if_pos rfl] at hrest
        obtain ⟨H₂, done', waiting', h₂, hthrough⟩ := ih h₁ hrest
        exact ⟨H₁ ++ H₂, done', waiting', by rwa [← List.append_assoc], hthrough⟩

/-! ### The end of a run -/

/-- The context in which a run ends, whether it succeeds or not. -/
def endContext (e : Embedder) (loader : Loader) (steps : Nat) (root : Json) : Context :=
  match e.existingNames root with
  | .error _ => Context.start e.maxSuffix e.reserved
  | .ok existing =>
    match e.traverse loader steps root (Context.start e.maxSuffix (e.reserved ++ existing)) with
    | .ok _ c => c
    | .error _ c => c

/-- What is known when a run has succeeded: everything stored is done, the root is done,
and the result is the root with the definitions added. -/
structure Finished (e : Embedder) (loader : Loader) (root : Json) (existing : List String)
    (H : List Record) (c : Context) (r : Embedded) : Prop where
  present : e.existingNames root = .ok existing
  holds : e.Holds loader (e.reserved ++ existing) H c
  demanded : ∀ r ∈ H, e.Demanded loader root r.identity
  finished : ∀ p ∈ H.flatMap Record.pieces, ∃ w, c.definitions.get? p.name = some w ∧
    e.Done c (some p.identity) p.content w
  root : ∃ document, e.Done c none root document ∧
    e.mount.addDefinitions c.definitions.entries document = .ok r.document
  definitions : r.definitions = c.definitions
  names : r.names = c.assignedNames

/-- What a run that succeeds has computed. -/
theorem run_done {steps : Nat} {r : Embedded}
    (h : (e.run loader steps root).outcome = .done r) :
    ∃ existing w, e.existingNames root = .ok existing ∧
      e.traverse loader steps root (Context.start e.maxSuffix (e.reserved ++ existing)) =
        .ok (some w) (e.endContext loader steps root) ∧
      e.finish (e.endContext loader steps root) w = .ok r ∧
      (e.run loader steps root).loaded = (e.endContext loader steps root).loaded := by
  unfold run at h ⊢
  unfold endContext
  split at h
  · simp at h
  · rename_i hobject
    rw [if_neg hobject]
    cases hexisting : e.existingNames root with
    | error error => rw [hexisting] at h; simp at h
    | ok existing =>
        rw [hexisting] at h
        simp only at h ⊢
        cases htraverse : e.traverse loader steps root
            (Context.start e.maxSuffix (e.reserved ++ existing)) with
        | error error c => rw [htraverse] at h; simp at h
        | ok result c =>
            rw [htraverse] at h
            cases result with
            | none => simp at h
            | some w =>
                replace h : Outcome.ofExcept (e.finish c w) = .done r := h
                refine ⟨existing, w, rfl, htraverse, ?_, rfl⟩
                cases hfinish : e.finish c w with
                | error error => rw [hfinish] at h; simp [Outcome.ofExcept] at h
                | ok result => rw [hfinish] at h; rw [Outcome.done.inj h]

/-- A root that was redirected until nothing waits: everything stored is done, and so is
the root. -/
theorem traverse_done {steps : Nat} {existing : List String} {w : Json}
    (h : e.traverse loader steps root (Context.start e.maxSuffix (e.reserved ++ existing)) =
      .ok (some w) c) :
    ∃ H, e.Holds loader (e.reserved ++ existing) H c ∧
      (∀ r ∈ H, e.Demanded loader root r.identity) ∧
      (∀ p ∈ H.flatMap Record.pieces, ∃ v, c.definitions.get? p.name = some v ∧
        e.Done c (some p.identity) p.content v) ∧
      e.Done c none root w := by
  unfold traverse at h
  simp only [Embedding.bind_eq_ok, Embedding.pure_eq_ok] at h
  obtain ⟨w', c₁, hredirect, through, c₂, hdrain, hresult, rfl⟩ := h
  obtain ⟨H₁, h₁, hdone⟩ := (e.progress_start loader root existing).redirect
    (fun raw hraw url hnames => Demanded.root hraw hnames) hredirect
  obtain ⟨H₂, done, waiting, h₂, hthrough⟩ := h₁.drain hdrain
  cases through with
  | false => simp at hresult
  | true =>
      rw [if_pos rfl, Option.some.injEq] at hresult
      subst hresult
      obtain rfl := hthrough rfl
      refine ⟨[] ++ H₁ ++ H₂, h₂.holds, h₂.demanded, fun p hp => ?_,
        hdone.mono fun i resource => h₁.holds.resource?_mono h₂.holds⟩
      rw [h₂.pieces, List.append_nil, List.append_nil] at hp
      exact h₂.finished p hp

/-- The definitions are added to the root, and nothing else is done. -/
theorem finished_of_finish {existing : List String} {w : Json} {r : Embedded}
    (hexisting : e.existingNames root = .ok existing)
    (hholds : e.Holds loader (e.reserved ++ existing) H c)
    (hdemanded : ∀ r ∈ H, e.Demanded loader root r.identity)
    (hfinished : ∀ p ∈ H.flatMap Record.pieces, ∃ v, c.definitions.get? p.name = some v ∧
      e.Done c (some p.identity) p.content v)
    (hdone : e.Done c none root w) (hfinish : e.finish c w = .ok r) :
    e.Finished loader root existing H c r := by
  unfold finish at hfinish
  cases hadd : e.mount.addDefinitions c.definitions.entries w with
  | error error => rw [hadd] at hfinish; simp [Except.map] at hfinish
  | ok added =>
      rw [hadd] at hfinish
      obtain rfl : Embedded.mk added c.definitions c.assignedNames = r := Except.ok.inj hfinish
      exact ⟨hexisting, hholds, hdemanded, hfinished, ⟨w, hdone, hadd⟩, rfl, rfl⟩

/-- **A run that succeeds has followed every reference.** -/
theorem finished_of_run {steps : Nat} {r : Embedded}
    (h : (e.run loader steps root).outcome = .done r) :
    (e.run loader steps root).loaded = (e.endContext loader steps root).loaded ∧
      ∃ existing H, e.Finished loader root existing H (e.endContext loader steps root) r := by
  obtain ⟨existing, w, hexisting, htraverse, hfinish, hloaded⟩ := run_done h
  obtain ⟨H, hholds, hdemanded, hfinished, hdone⟩ := traverse_done htraverse
  exact ⟨hloaded, existing, H,
    finished_of_finish hexisting hholds hdemanded hfinished hdone hfinish⟩

end Embedder

/-! ### Two documents that refer to each other -/

/-- Two documents that refer to each other, each with the same definition of its own. -/
def twins : List (String × Json) :=
  let size := Json.object [("type", .string "integer")]
  [("a.json", .object
      [("$ref", .string "#/definitions/Size"), ("definitions", .object [("Size", size)]),
        ("items", .object [("$ref", .string "b.json#/definitions/Size")])]),
    ("b.json", .object
      [("$ref", .string "a.json"), ("definitions", .object [("Size", size)])])]

/-- A root that refers to one of them, and has another definition of that name. -/
def twinsRoot : Json :=
  .object [("$ref", .string "a.json"), ("definitions", .object [("Size", .null)])]

theorem twins_ordered : (Loader.ofDocuments twins).Ordered := by
  refine Loader.ofDocuments_ordered ?_
  simp only [twins, List.forall_mem_cons, List.not_mem_nil, false_implies, implies_true,
    Json.ordered_object, Json.Ordered.string]
  decide +kernel

theorem Outcome.done_of_check {α : Type} (outcome : Outcome α) (check : α → Bool)
    (h : (match outcome with | .done result => check result | _ => false) = true) :
    ∃ result, outcome = .done result ∧ check result = true := by
  cases outcome with
  | done result => exact ⟨result, rfl, h⟩
  | failed error => simp at h
  | unfinished => simp at h

theorem twins_done : ∃ out, (Embedder.standard.runOn twins twinsRoot).outcome = .done out := by
  obtain ⟨out, hout, -⟩ := Outcome.done_of_check
    (Embedder.standard.runOn twins twinsRoot).outcome (fun _ => true) (by decide +kernel)
  exact ⟨out, hout⟩

end SchemaBundle
