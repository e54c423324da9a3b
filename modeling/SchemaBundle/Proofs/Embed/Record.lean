/-
What a context is made of.

The fields of a context say the same things several times over: an embedded document
shows up among the resources, in the log of the loader, in the definitions, on the
worklist and, through its own definitions, in what may be shared.  `Keeps` ties all of
them to one list, with one `Record` for every document in the order of loading, so
that a statement about contexts becomes a statement about that list.

The only way the list grows is that a document is embedded, and it grows by one record
at its end.  `Admits` says everything that step does, and `ensureEmbedded_ok` that
there is no other.
-/
import SchemaBundle.Proofs.Embed.Redirect
import SchemaBundle.Proofs.Naming

namespace SchemaBundle

/-- What is stored under a name: where it was found, and as it was found. -/
structure Piece where
  /-- The name. -/
  name : String
  /-- The document it was found in. -/
  identity : String
  /-- What was found. -/
  content : Json

/-- A piece on the worklist. -/
def Piece.pending (p : Piece) : Pending :=
  ⟨p.name, p.identity⟩

/-- A document's own definition, and what became of it. -/
structure LocalDefinition where
  /-- The key it was found under. -/
  key : String
  /-- The name that stands for it. -/
  name : String
  /-- Its content as it was found. -/
  content : Json
  /-- Whether it was stored; otherwise the name is one that is shared. -/
  fresh : Bool

namespace LocalDefinition

/-- What a definition of a document stores. -/
def piece (identity : String) (d : LocalDefinition) : Piece :=
  ⟨d.name, identity, d.content⟩

/-- What a definition of a document offers to later documents. -/
def hoisted (identity : String) (d : LocalDefinition) : Hoisted :=
  ⟨d.name, identity, d.content⟩

end LocalDefinition

/-- An embedded document. -/
structure Record where
  /-- Its identity. -/
  identity : String
  /-- Its name. -/
  name : String
  /-- The document without its own definitions. -/
  body : Json
  /-- Its own definitions, in key order. -/
  locals : List LocalDefinition

namespace Record

/-- The definitions as they stood in the document. -/
def own (r : Record) : List (String × Json) :=
  r.locals.map fun d => (d.key, d.content)

/-- Where the document has its place. -/
def resource (r : Record) : Resource :=
  ⟨r.name, r.locals.map fun d => (d.key, d.name)⟩

/-- What was stored for the document: itself, then the definitions it does not share. -/
def pieces (r : Record) : List Piece :=
  ⟨r.name, r.identity, r.body⟩ :: (r.locals.filter (·.fresh)).map fun d => d.piece r.identity

/-- What the document offers under a key. -/
def hoistedAt (r : Record) (key : String) : List Hoisted :=
  (r.locals.filter fun d => d.fresh && d.key == key).map fun d => d.hoisted r.identity

@[simp] theorem keys_own (r : Record) : Entries.keys r.own = r.locals.map (·.key) := by
  simp [Entries.keys, own]

@[simp] theorem keys_localNames (r : Record) :
    Entries.keys r.resource.localNames = r.locals.map (·.key) := by
  simp [Entries.keys, resource]

theorem mem_hoistedAt {r : Record} {key : String} {h : Hoisted} :
    h ∈ r.hoistedAt key ↔ ∃ d ∈ r.locals, d.fresh = true ∧ d.key = key ∧
      d.hoisted r.identity = h := by
  simp [hoistedAt, and_assoc]

theorem mem_pieces {r : Record} {p : Piece} :
    p ∈ r.pieces ↔ p = ⟨r.name, r.identity, r.body⟩ ∨
      ∃ d ∈ r.locals, d.fresh = true ∧ d.piece r.identity = p := by
  simp [pieces, and_assoc]

theorem identity_of_mem_pieces {r : Record} {p : Piece} (h : p ∈ r.pieces) :
    p.identity = r.identity := by
  rcases mem_pieces.mp h with rfl | ⟨d, -, -, rfl⟩ <;> rfl

end Record

namespace Context

/-- What documents may share under a key. -/
def hoistedAt (c : Context) (key : String) : List Hoisted :=
  (Entries.get? c.hoisted key).getD []

/-! ### Names and what is stored under them -/

/-- The definitions are the given pieces, stored in that order under names of their own
that were kept out for nobody. -/
structure Stored (kept : List String) (pieces : List Piece) (c : Context) : Prop where
  /-- The definitions are walked in key order. -/
  sorted : Entries.Sorted c.definitions.entries
  order : c.definitions.order = pieces.map Piece.name
  nodup : (pieces.map Piece.name).Nodup
  /-- There are no definitions but the pieces. -/
  contains : ∀ name, (c.definitions.get? name).isSome ↔ name ∈ pieces.map Piece.name
  /-- No name of a piece is handed out again. -/
  taken : ∀ name ∈ pieces.map Piece.name, name ∈ c.allocator.taken
  keptTaken : ∀ name ∈ kept, name ∈ c.allocator.taken
  apart : ∀ name ∈ pieces.map Piece.name, name ∉ kept

/-- What storing further pieces does. -/
structure Stores (kept : List String) (old : List Piece) (c : Context) (new : List Piece)
    (c' : Context) : Prop where
  stored : Stored kept (old ++ new) c'
  worklist : c'.worklist = c.worklist ++ new.map Piece.pending
  content : ∀ p ∈ new, c'.definitions.get? p.name = some p.content
  others : ∀ name, name ∉ new.map Piece.name →
    c'.definitions.get? name = c.definitions.get? name

variable {kept : List String} {old new new' : List Piece} {c c₁ c' : Context}

/-- More names may be in use. -/
theorem Stored.grow (h : Stored kept old c) (hdefs : c'.definitions = c.definitions)
    (htaken : ∀ name ∈ c.allocator.taken, name ∈ c'.allocator.taken) : Stored kept old c' where
  sorted := by rw [hdefs]; exact h.sorted
  order := by rw [hdefs]; exact h.order
  nodup := h.nodup
  contains := by rw [hdefs]; exact h.contains
  taken := fun name hname => htaken name (h.taken name hname)
  keptTaken := fun name hname => htaken name (h.keptTaken name hname)
  apart := h.apart

/-- Only the definitions and the names in use matter. -/
theorem Stored.congr (h : Stored kept old c) (hdefs : c'.definitions = c.definitions)
    (halloc : c'.allocator = c.allocator) : Stored kept old c' :=
  h.grow hdefs fun _ hname => halloc ▸ hname

theorem Stores.nil (h : Stored kept old c) : Stores kept old c [] c where
  stored := by rwa [List.append_nil]
  worklist := by rw [List.map_nil, List.append_nil]
  content := by simp
  others := fun _ _ => rfl

theorem Stores.trans (h : Stores kept old c new c₁) (h' : Stores kept (old ++ new) c₁ new' c') :
    Stores kept old c (new ++ new') c' where
  stored := by rw [← List.append_assoc]; exact h'.stored
  worklist := by rw [h'.worklist, h.worklist, List.map_append, List.append_assoc]
  content := by
    intro p hp
    rcases List.mem_append.mp hp with hp | hp
    · -- a later piece has another name, so it does not overwrite this one
      have hnd := h'.stored.nodup
      rw [List.map_append, List.map_append] at hnd
      have hne : p.name ∉ new'.map Piece.name := fun hmem =>
        (List.nodup_append.mp hnd).2.2 _
          (List.mem_append_right _ (List.mem_map_of_mem hp)) _ hmem rfl
      rw [h'.others _ hne]
      exact h.content p hp
    · exact h'.content p hp
  others := by
    intro name hname
    rw [List.map_append, List.mem_append, not_or] at hname
    rw [h'.others name hname.2, h.others name hname.1]

/-- Storing one piece under a name that was handed out just now. -/
theorem Stored.store (h : Stored kept old c) {p : Piece} (hnew : p.name ∉ c.allocator.taken)
    (htaken : c'.allocator.taken = p.name :: c.allocator.taken)
    (hdefs : c'.definitions = c.definitions.insert p.name p.content)
    (hwork : c'.worklist = c.worklist ++ [p.pending]) : Stores kept old c [p] c' := by
  have hname : p.name ∉ old.map Piece.name := fun hmem => hnew (h.taken _ hmem)
  have hget : ∀ name, c'.definitions.get? name =
      if p.name = name then some p.content else c.definitions.get? name := by
    intro name
    rw [hdefs]
    exact Entries.get?_insert _ _ _ _
  have hcontains : c.definitions.contains p.name = false := by
    have hnone := (h.contains p.name).not.mpr hname
    exact Bool.not_eq_true _ ▸ hnone
  refine ⟨⟨?_, ?_, ?_, ?_, ?_, ?_, ?_⟩, by simpa using hwork, ?_, ?_⟩
  · rw [hdefs]
    exact h.sorted.insert _ _
  · rw [hdefs]
    show (if c.definitions.contains p.name = true then _ else _) = _
    rw [hcontains, if_neg Bool.false_ne_true, h.order, List.map_append]
    rfl
  · rw [List.map_append, List.nodup_append]
    refine ⟨h.nodup, List.nodup_singleton _, fun name hmem name' hmem' heq => ?_⟩
    exact hname (List.mem_singleton.mp hmem' ▸ heq ▸ hmem)
  · intro name
    rw [hget, List.map_append, List.mem_append, ← h.contains]
    by_cases heq : p.name = name
    · simp [heq]
    · simp [heq, Ne.symm heq]
  · intro name hmem
    rw [htaken]
    rw [List.map_append, List.mem_append] at hmem
    rcases hmem with hmem | hmem
    · exact List.mem_cons_of_mem _ (h.taken name hmem)
    · rw [List.mem_singleton.mp hmem]
      exact List.mem_cons_self
  · intro name hmem
    rw [htaken]
    exact List.mem_cons_of_mem _ (h.keptTaken name hmem)
  · intro name hmem
    rw [List.map_append, List.mem_append] at hmem
    rcases hmem with hmem | hmem
    · exact h.apart name hmem
    · rw [List.mem_singleton.mp hmem]
      exact fun hkept => hnew (h.keptTaken _ hkept)
  · intro q hq
    rw [List.mem_singleton.mp hq, hget, if_pos rfl]
  · intro name hname'
    rw [hget, if_neg fun heq => hname' (by simp [heq])]

/-- The content of a definition is replaced. -/
theorem Stored.complete {pieces : List Piece} {name : String} (h : c.Stored kept pieces)
    (v : Json) (hname : c.definitions.contains name = true) :
    (c.complete name v).Stored kept pieces := by
  have hget : ∀ n, (c.complete name v).definitions.get? n =
      if name = n then some v else c.definitions.get? n := fun n => Entries.get?_insert _ _ _ _
  refine ⟨h.sorted.insert _ _, ?_, h.nodup, fun n => ?_, h.taken, h.keptTaken, h.apart⟩
  · show (if c.definitions.contains name = true then _ else _) = _
    rw [if_pos hname, h.order]
  · rw [hget]
    split
    · rename_i heq
      exact ⟨fun _ => heq ▸ (h.contains name).mp hname, fun _ => rfl⟩
    · exact h.contains n

/-! ### Giving names to a document's own definitions -/

theorem hoistedAt_offer (c : Context) (key k : String) (h : Hoisted) :
    (c.offer key h).hoistedAt k = c.hoistedAt k ++ if key = k then [h] else [] := by
  show (Entries.get? (Entries.insert key (c.hoistedAt key ++ [h]) c.hoisted) k).getD [] = _
  rw [Entries.get?_insert]
  split
  · rename_i heq
    rw [heq, Option.getD_some]
  · rw [List.append_nil]
    rfl

/-- What giving names does: a definition whose key shares gets the shared name, and every
other is stored under a new name and offered to later documents. -/
structure Gives (identity : String) (shared : List (String × String)) (kept : List String)
    (old : List Piece) (c : Context) (L : List LocalDefinition) (c' : Context) : Prop where
  shares : ∀ d ∈ L, d.fresh = (Entries.get? shared d.key).isNone ∧
    ∀ name, Entries.get? shared d.key = some name → d.name = name
  stores : Stores kept old c ((L.filter (·.fresh)).map fun d => d.piece identity) c'
  resources : c'.resources = c.resources
  loaded : c'.loaded = c.loaded
  hoistedAt : ∀ key, c'.hoistedAt key = c.hoistedAt key ++
    (L.filter fun d => d.fresh && d.key == key).map fun d => d.hoisted identity

section

variable {identity : String} {shared : List (String × String)} {L M : List LocalDefinition}

theorem Gives.nil (h : Stored kept old c) : Gives identity shared kept old c [] c where
  shares := by simp
  stores := Stores.nil h
  resources := rfl
  loaded := rfl
  hoistedAt := by simp

theorem Gives.trans (h : Gives identity shared kept old c L c₁)
    (h' : Gives identity shared kept
      (old ++ (L.filter (·.fresh)).map fun d => d.piece identity) c₁ M c') :
    Gives identity shared kept old c (L ++ M) c' where
  shares := List.forall_mem_append.mpr ⟨h.shares, h'.shares⟩
  stores := by
    rw [List.filter_append, List.map_append]
    exact h.stores.trans h'.stores
  resources := h'.resources.trans h.resources
  loaded := h'.loaded.trans h.loaded
  hoistedAt := by
    intro key
    rw [h'.hoistedAt, h.hoistedAt, List.filter_append, List.map_append, List.append_assoc]

/-- A definition gets the name that it shares, or one that is handed out for its key. -/
theorem hoistOne_cases {key name : String} {content : Json}
    (h : Embedding.hoistOne identity shared key content c = .ok name c') :
    (Entries.get? shared key = some name ∧ c' = c) ∨
      (Entries.get? shared key = none ∧
        ∃ allocator, c.allocator.allocate key identity = .ok (name, allocator) ∧
          c' = (({ c with allocator } : Context).offer key ⟨name, identity, content⟩).store
            identity name content) := by
  unfold Embedding.hoistOne at h
  cases hshared : Entries.get? shared key with
  | some sharedName =>
      rw [hshared] at h
      obtain ⟨rfl, rfl⟩ := Embedding.pure_eq_ok.mp h
      exact Or.inl ⟨rfl, rfl⟩
  | none =>
      rw [hshared] at h
      simp only [Embedding.bind_eq_ok, Embedding.get_eq_ok] at h
      obtain ⟨a, c₀, ⟨rfl, rfl⟩, h⟩ := h
      cases halloc : c.allocator.allocate key identity with
      | error error => rw [halloc] at h; exact absurd h Embedding.throw_ne_ok
      | ok result =>
          obtain ⟨name', allocator⟩ := result
          rw [halloc] at h
          simp only [Embedding.bind_eq_ok, Embedding.set_eq_ok, Embedding.pure_eq_ok] at h
          obtain ⟨-, c₀, rfl, rfl, rfl⟩ := h
          exact Or.inr ⟨rfl, allocator, rfl, rfl⟩

/-- One definition gets a name. -/
theorem hoistOne_ok {key name : String} {content : Json} (h : Stored kept old c)
    (hrun : Embedding.hoistOne identity shared key content c = .ok name c') :
    ∃ d : LocalDefinition, d.key = key ∧ d.name = name ∧ d.content = content ∧
      Gives identity shared kept old c [d] c' := by
  rcases hoistOne_cases hrun with ⟨hshared, rfl⟩ | ⟨hshared, allocator, halloc, rfl⟩
  · refine ⟨⟨key, name, content, false⟩, rfl, rfl, rfl, ?_, Stores.nil h, rfl, rfl, ?_⟩
    · simp [hshared]
    · simp
  · obtain ⟨hnew, htaken⟩ := NameAllocator.allocate_ok halloc
    refine ⟨⟨key, name, content, true⟩, rfl, rfl, rfl, ?_, h.store hnew htaken rfl rfl, rfl, rfl,
      fun k => ?_⟩
    · simp [hshared]
    · show Context.hoistedAt (Context.offer _ _ _) k = _
      rw [hoistedAt_offer]
      show c.hoistedAt k ++ _ = _
      congr 1
      by_cases hk : key = k <;> simp [hk, LocalDefinition.hoisted]

/-- When it gets none, nothing changes. -/
theorem hoistOne_error {key : String} {content : Json} {error : Error}
    (h : Embedding.hoistOne identity shared key content c = .error error c') :
    c.allocator.allocate key identity = .error error ∧ c' = c := by
  unfold Embedding.hoistOne at h
  cases hshared : Entries.get? shared key with
  | some name =>
      rw [hshared] at h
      exact absurd h Embedding.pure_ne_error
  | none =>
      rw [hshared] at h
      simp only [Embedding.bind_eq_error, Embedding.get_ne_error, Embedding.get_eq_ok,
        false_or] at h
      obtain ⟨a, c₀, ⟨rfl, rfl⟩, h⟩ := h
      cases halloc : c.allocator.allocate key identity with
      | error found =>
          rw [halloc] at h
          obtain ⟨rfl, rfl⟩ := Embedding.throw_eq_error.mp h
          exact ⟨rfl, rfl⟩
      | ok result =>
          rw [halloc] at h
          cases h

/-- All of them get names, one after the other. -/
theorem hoistAll_ok {names : List (String × String)} {definitions : List (String × Json)}
    (h : Stored kept old c)
    (hrun : Embedding.hoistAll identity shared definitions c = .ok names c') :
    ∃ L : List LocalDefinition, definitions = L.map (fun d => (d.key, d.content)) ∧
      names = L.map (fun d => (d.key, d.name)) ∧ Gives identity shared kept old c L c' := by
  induction definitions generalizing old c names with
  | nil =>
      unfold Embedding.hoistAll at hrun
      obtain ⟨rfl, rfl⟩ := Embedding.pure_eq_ok.mp hrun
      exact ⟨[], rfl, rfl, Gives.nil h⟩
  | cons entry rest ih =>
      obtain ⟨key, content⟩ := entry
      unfold Embedding.hoistAll at hrun
      simp only [Embedding.bind_eq_ok, Embedding.pure_eq_ok] at hrun
      obtain ⟨name, c₁, hone, names', c₂, hrest, rfl, rfl⟩ := hrun
      obtain ⟨d, rfl, rfl, rfl, hd⟩ := hoistOne_ok h hone
      obtain ⟨L, rfl, rfl, hL⟩ := ih hd.stores.stored hrest
      exact ⟨d :: L, rfl, rfl, hd.trans hL⟩

end

/-! ### The documents of a context -/

/-- A context is what became of the documents in a list, loaded in that order. -/
structure Keeps (kept : List String) (H : List Record) (c : Context) : Prop where
  stored : Stored kept (H.flatMap Record.pieces) c
  loaded : c.loaded = H.map Record.identity
  unique : (H.map Record.identity).Nodup
  resources : ∀ identity resource, c.resource? identity = some resource ↔
    ∃ r ∈ H, r.identity = identity ∧ r.resource = resource
  hoisted : ∀ key, c.hoistedAt key = H.flatMap fun r => r.hoistedAt key
  /-- Whether a definition is stored depends on its key only. -/
  fresh : ∀ r ∈ H, ∀ d ∈ r.locals, ∀ δ ∈ r.locals, d.key = δ.key → d.fresh = δ.fresh

variable {H : List Record} {target : String → String → RefTarget}

theorem keeps_start (maxSuffix : Nat) (kept : List String) :
    Keeps kept [] (Context.start maxSuffix kept) where
  stored := by
    refine ⟨List.Pairwise.nil, rfl, List.nodup_nil, fun name => ?_, by simp, ?_, by simp⟩
    · show (Entries.get? [] name).isSome = true ↔ _
      simp
    · exact fun name hname => NameAllocator.mem_reserveAll_taken.mpr (Or.inl hname)
  loaded := rfl
  unique := List.nodup_nil
  resources := by
    intro identity resource
    show Entries.get? [] identity = some resource ↔ _
    simp
  hoisted := fun _ => rfl
  fresh := by simp

namespace Keeps

variable (hk : c.Keeps kept H)
include hk

/-- Two records of one identity are one record. -/
theorem eq_of_identity {r s : Record} (hr : r ∈ H) (hs : s ∈ H)
    (h : r.identity = s.identity) : r = s :=
  List.inj_on_of_nodup_map hk.unique hr hs h

theorem resource_of_mem {r : Record} (hr : r ∈ H) :
    c.resource? r.identity = some r.resource :=
  (hk.resources _ _).mpr ⟨r, hr, rfl, rfl⟩

theorem isSome_resource? {identity : String} :
    (c.resource? identity).isSome ↔ identity ∈ H.map Record.identity := by
  rw [Option.isSome_iff_exists, List.mem_map]
  constructor
  · rintro ⟨resource, h⟩
    obtain ⟨r, hr, hid, -⟩ := (hk.resources _ _).mp h
    exact ⟨r, hr, hid⟩
  · rintro ⟨r, hr, rfl⟩
    exact ⟨_, hk.resource_of_mem hr⟩

/-- What may be shared was offered by a document that is known. -/
theorem mem_hoistedAt {key : String} {h : Hoisted} :
    h ∈ c.hoistedAt key ↔ ∃ r ∈ H, ∃ d ∈ r.locals, d.fresh = true ∧ d.key = key ∧
      d.hoisted r.identity = h := by
  rw [hk.hoisted, List.mem_flatMap]
  simp only [Record.mem_hoistedAt]

end Keeps

/-! ### Embedding one more document -/

/-- What embedding a document does to a context: there is one more record, its pieces
are stored and wait, and exactly those of its definitions are stored for which the
search found nothing to share. -/
structure Admits (target : String → String → RefTarget) (kept : List String)
    (H : List Record) (c : Context) (r : Record) (c' : Context) : Prop where
  unknown : c.resource? r.identity = none
  keeps : c'.Keeps kept (H ++ [r])
  stores : Stores kept (H.flatMap Record.pieces) c r.pieces c'
  shares : ∀ d ∈ r.locals,
    d.fresh = (Entries.get? (Sharing.resolve (c.viable target r.identity r.own)) d.key).isNone ∧
    ∀ name, Entries.get? (Sharing.resolve (c.viable target r.identity r.own)) d.key = some name →
      d.name = name

/-- The document is a new one. -/
theorem Admits.not_mem {r : Record} (h : Admits target kept H c r c') (hk : c.Keeps kept H) :
    r ∉ H := by
  intro hr
  have hnone := h.unknown
  rw [hk.resource_of_mem hr] at hnone
  simp at hnone

/-- What is viable depends on what is offered and on the documents that offer it. -/
theorem viable_congr {identity : String} {definitions : List (String × Json)}
    (hhoisted : c'.hoisted = c.hoisted)
    (hres : ∀ key, ∀ h ∈ c.hoistedAt key, c'.resource? h.owner = c.resource? h.owner) :
    c'.viable target identity definitions = c.viable target identity definitions := by
  unfold viable
  simp only
  congr 1
  refine List.map_congr_left fun entry _ => ?_
  simp only [Prod.mk.injEq, true_and]
  unfold shareCandidates
  rw [hhoisted]
  refine List.filterMap_congr fun h hmem => ?_
  rw [hres entry.1 h (List.mem_filter.mp hmem).1]

/-- A document gets a name that is handed out for the proposed one. -/
theorem allocate_of_reserveResource {identity base name : String}
    (h : Embedding.reserveResource identity base c = .ok name c') :
    ∃ allocator, c.allocator.allocate base identity = .ok (name, allocator) ∧
      c' = { c with allocator, resources := Entries.insert identity ⟨name, []⟩ c.resources } := by
  unfold Embedding.reserveResource at h
  simp only [Embedding.bind_eq_ok, Embedding.get_eq_ok] at h
  obtain ⟨a, c₀, ⟨rfl, rfl⟩, h⟩ := h
  cases halloc : c.allocator.allocate base identity with
  | error error => rw [halloc] at h; exact absurd h Embedding.throw_ne_ok
  | ok result =>
      obtain ⟨name', allocator⟩ := result
      rw [halloc] at h
      simp only [Embedding.bind_eq_ok, Embedding.set_eq_ok, Embedding.pure_eq_ok] at h
      obtain ⟨-, c₀, rfl, rfl, rfl⟩ := h
      exact ⟨allocator, rfl, rfl⟩

theorem reserveResource_ok {identity base name : String}
    (h : Embedding.reserveResource identity base c = .ok name c') :
    name ∉ c.allocator.taken ∧ c'.allocator.taken = name :: c.allocator.taken ∧
      c'.resources = Entries.insert identity ⟨name, []⟩ c.resources ∧
      c'.hoisted = c.hoisted ∧ c'.definitions = c.definitions ∧
      c'.worklist = c.worklist ∧ c'.loaded = c.loaded := by
  obtain ⟨allocator, halloc, rfl⟩ := allocate_of_reserveResource h
  obtain ⟨hnew, htaken⟩ := NameAllocator.allocate_ok halloc
  exact ⟨hnew, htaken, rfl, rfl, rfl, rfl, rfl⟩

/-- A name that cannot be given changes nothing. -/
theorem reserveResource_error {identity base : String} {error : Error}
    (h : Embedding.reserveResource identity base c = .error error c') :
    c.allocator.allocate base identity = .error error ∧ c' = c := by
  unfold Embedding.reserveResource at h
  simp only [Embedding.bind_eq_error, Embedding.get_ne_error, Embedding.get_eq_ok, false_or] at h
  obtain ⟨a, c₀, ⟨rfl, rfl⟩, h⟩ := h
  cases halloc : c.allocator.allocate base identity with
  | error found =>
      rw [halloc] at h
      obtain ⟨rfl, rfl⟩ := Embedding.throw_eq_error.mp h
      exact ⟨rfl, rfl⟩
  | ok result =>
      rw [halloc] at h
      cases h

/-- Reserving the name of a document changes what is known of no other. -/
theorem resource?_reserve_ne {identity base name j : String} (hne : j ≠ identity)
    (h : Embedding.reserveResource identity base c = .ok name c') :
    c'.resource? j = c.resource? j := by
  obtain ⟨-, -, hresources, -⟩ := reserveResource_ok h
  unfold resource?
  rw [hresources, Entries.get?_insert_ne hne.symm]

/-- The document has its name and is stored; its own definitions are still to be named. -/
def opened (c : Context) (identity name : String) (body : Json) : Context :=
  ({ c with loaded := c.loaded ++ [identity] } : Context).store identity name body

theorem resource?_opened_ne {identity base name j : String} {body : Json} (hne : j ≠ identity)
    (h : Embedding.reserveResource identity base c = .ok name c₁) :
    (c₁.opened identity name body).resource? j = c.resource? j := by
  show c₁.resource? j = _
  exact resource?_reserve_ne hne h

/-- Before its definitions are named, a document has nothing to share yet. -/
theorem viable_opened {identity base name : String} {body : Json}
    {definitions : List (String × Json)} (hk : c.Keeps kept H)
    (hnone : c.resource? identity = none)
    (hreserve : Embedding.reserveResource identity base c = .ok name c₁) :
    (c₁.opened identity name body).viable target identity definitions =
      c.viable target identity definitions := by
  obtain ⟨-, -, -, hhoisted, -⟩ := reserveResource_ok hreserve
  refine viable_congr hhoisted fun key h hmem => resource?_opened_ne ?_ hreserve
  -- whoever offers something is known
  obtain ⟨r, hr, d, -, -, -, rfl⟩ := hk.mem_hoistedAt.mp hmem
  rintro rfl
  rw [LocalDefinition.hoisted, hk.resource_of_mem hr] at hnone
  simp at hnone

/-- With one more document, what is known is what was known and what is known of it. -/
theorem Keeps.resources_extend {r : Record} (hk : c.Keeps kept H)
    (hnone : c.resource? r.identity = none) (hself : c'.resource? r.identity = some r.resource)
    (hother : ∀ j, j ≠ r.identity → c'.resource? j = c.resource? j) (j : String)
    (resource : Resource) :
    c'.resource? j = some resource ↔
      ∃ s ∈ H ++ [r], s.identity = j ∧ s.resource = resource := by
  simp only [List.mem_append, List.mem_singleton, or_and_right, exists_or, exists_eq_left]
  by_cases hj : j = r.identity
  · subst hj
    rw [hself, Option.some.injEq, ← hk.resources, hnone]
    simp
  · rw [hother j hj, hk.resources, or_iff_left fun h => hj h.1.symm]

theorem Keeps.extend {r : Record} (hk : c.Keeps kept H)
    (hnone : c.resource? r.identity = none)
    (hstored : Stored kept (H.flatMap Record.pieces ++ r.pieces) c')
    (hloaded : c'.loaded = c.loaded ++ [r.identity])
    (hself : c'.resource? r.identity = some r.resource)
    (hother : ∀ j, j ≠ r.identity → c'.resource? j = c.resource? j)
    (hhoisted : ∀ key, c'.hoistedAt key = c.hoistedAt key ++ r.hoistedAt key)
    (hfresh : ∀ d ∈ r.locals, ∀ δ ∈ r.locals, d.key = δ.key → d.fresh = δ.fresh) :
    c'.Keeps kept (H ++ [r]) where
  stored := by
    rw [List.flatMap_append, List.flatMap_singleton]
    exact hstored
  loaded := by rw [hloaded, hk.loaded, List.map_append, List.map_singleton]
  unique := by
    have hunknown : r.identity ∉ H.map Record.identity := by
      rw [← hk.isSome_resource?, hnone]
      simp
    rw [List.map_append, List.map_singleton, List.nodup_append]
    refine ⟨hk.unique, List.nodup_singleton _, fun i hi j hj heq => hunknown ?_⟩
    rwa [← List.mem_singleton.mp hj, ← heq]
  resources := hk.resources_extend hnone hself hother
  hoisted := by
    intro key
    rw [hhoisted, hk.hoisted, List.flatMap_append, List.flatMap_singleton]
  fresh := List.forall_mem_append.mpr ⟨hk.fresh, List.forall_mem_singleton.mpr hfresh⟩

/-- The document itself is the first of its pieces. -/
theorem stores_opened {identity base name : String} (body : Json) (hk : c.Keeps kept H)
    (hreserve : Embedding.reserveResource identity base c = .ok name c₁) :
    Stores kept (H.flatMap Record.pieces) c [⟨name, identity, body⟩]
      (c₁.opened identity name body) := by
  obtain ⟨hnew, htaken, -, -, hdefs, hwork, -⟩ := reserveResource_ok hreserve
  refine hk.stored.store hnew htaken ?_ ?_
  · show c₁.definitions.insert name body = _
    rw [hdefs]
  · show c₁.worklist ++ _ = _
    rw [hwork]
    rfl

/-- When all of its own definitions have names, the document is embedded. -/
theorem Gives.admits {identity base name : String} {body : Json} {L : List LocalDefinition}
    {c₂ : Context} (hk : c.Keeps kept H) (hnone : c.resource? identity = none)
    (hreserve : Embedding.reserveResource identity base c = .ok name c₁)
    (hL : Gives identity (Sharing.resolve ((c₁.opened identity name body).viable target identity
      (L.map fun d => (d.key, d.content)))) kept
      (H.flatMap Record.pieces ++ [⟨name, identity, body⟩]) (c₁.opened identity name body) L c₂) :
    c₂.resource? identity = some ⟨name, []⟩ ∧
      Admits target kept H c ⟨identity, name, body, L⟩
        { c₂ with
          resources := Entries.insert identity ⟨name, L.map fun d => (d.key, d.name)⟩
            c₂.resources } := by
  obtain ⟨-, -, hresources, hhoisted, -, -, hloaded⟩ := reserveResource_ok hreserve
  have hshares := hL.shares
  rw [viable_opened hk hnone hreserve] at hshares
  have h := (stores_opened body hk hreserve).trans hL.stores
  refine ⟨?_, hnone, ?_, ⟨h.stored.congr rfl rfl, h.worklist, h.content, h.others⟩, hshares⟩
  · show Entries.get? c₂.resources identity = _
    rw [hL.resources]
    show Entries.get? c₁.resources identity = _
    rw [hresources, Entries.get?_insert_self]
  refine hk.extend hnone (h.stored.congr rfl rfl) ?_ (Entries.get?_insert_self _ _ _) ?_ ?_ ?_
  · show c₂.loaded = _
    rw [hL.loaded, ← hloaded]
    rfl
  · intro j hj
    show Entries.get? (Entries.insert identity _ c₂.resources) j = _
    rw [Entries.get?_insert_ne hj.symm, hL.resources]
    exact resource?_opened_ne hj hreserve
  · intro key
    show c₂.hoistedAt key = _
    rw [hL.hoistedAt key]
    show (Entries.get? c₁.hoisted key).getD [] ++ _ = _
    rw [hhoisted]
    rfl
  · intro d hd δ hδ hkey
    rw [(hshares d hd).1, (hshares δ hδ).1, hkey]

theorem hoist_ok {identity base name : String} {body : Json} {definitions : List (String × Json)}
    (hk : c.Keeps kept H) (hnone : c.resource? identity = none)
    (hreserve : Embedding.reserveResource identity base c = .ok name c₁)
    (hhoist : Embedding.hoist target identity definitions (c₁.opened identity name body)
      = .ok () c') :
    ∃ r : Record, r.identity = identity ∧ r.own = definitions ∧ r.body = body ∧
      Admits target kept H c r c' := by
  unfold Embedding.hoist at hhoist
  simp only [Embedding.bind_eq_ok, Embedding.get_eq_ok, Embedding.modify_eq_ok] at hhoist
  obtain ⟨a, c₂, ⟨rfl, rfl⟩, names, c₃, hall, rfl⟩ := hhoist
  obtain ⟨L, rfl, rfl, hL⟩ := hoistAll_ok (stores_opened body hk hreserve).stored hall
  obtain ⟨hself, hadmits⟩ := hL.admits hk hnone hreserve
  rw [hself]
  exact ⟨⟨identity, name, body, L⟩, rfl, rfl, rfl, hadmits⟩

end Context

/-- What happens to a document that is met: it is known already, or it gets its name, is
loaded and stored, and its definitions are named. -/
theorem Embedder.ensureEmbedded_cases {e : Embedder} {loader : Loader} {identity : String}
    {c c' : Context} (h : e.ensureEmbedded loader identity c = .ok () c') :
    (c' = c ∧ (c.resource? identity).isSome) ∨
    ∃ name c₁ document, c.resource? identity = none ∧
      Embedding.reserveResource identity (e.naming identity) c = .ok name c₁ ∧
      loader.fetch identity = .ok document ∧
      Embedding.hoist e.refTarget identity (e.mount.takeDefinitions document).1
        (c₁.opened identity name (e.mount.takeDefinitions document).2) = .ok () c' := by
  unfold Embedder.ensureEmbedded at h
  simp only [Embedding.bind_eq_ok, Embedding.get_eq_ok] at h
  obtain ⟨a, c₀, ⟨rfl, rfl⟩, h⟩ := h
  split at h
  · rename_i hsome
    obtain ⟨-, rfl⟩ := Embedding.pure_eq_ok.mp h
    exact Or.inl ⟨rfl, hsome⟩
  · rename_i hnone
    simp only [Embedding.bind_eq_ok, Embedding.modify_eq_ok] at h
    obtain ⟨name, c₁, hreserve, -, c₂, rfl, h⟩ := h
    cases hfetch : loader.fetch identity with
    | error error => rw [hfetch] at h; exact absurd h Embedding.throw_ne_ok
    | ok document =>
        rw [hfetch] at h
        simp only [Embedding.bind_eq_ok, Embedding.modify_eq_ok] at h
        obtain ⟨-, c₃, rfl, h⟩ := h
        exact Or.inr ⟨name, c₁, document, Option.not_isSome_iff_eq_none.mp hnone, hreserve,
          rfl, h⟩

/-- **Embedding a document that is known does nothing, and embedding any other loads it
and adds one record.** -/
theorem Embedder.ensureEmbedded_ok {e : Embedder} {loader : Loader} {identity : String}
    {kept : List String} {H : List Record} {c c' : Context} (hk : c.Keeps kept H)
    (h : e.ensureEmbedded loader identity c = .ok () c') :
    (c' = c ∧ (c.resource? identity).isSome) ∨
    ∃ r document, r.identity = identity ∧ loader.fetch identity = .ok document ∧
      e.mount.takeDefinitions document = (r.own, r.body) ∧
      Context.Admits e.refTarget kept H c r c' := by
  refine (ensureEmbedded_cases h).imp_right ?_
  rintro ⟨name, c₁, document, hnone, hreserve, hfetch, hhoist⟩
  obtain ⟨r, hid, hown, hbody, hadmits⟩ := Context.hoist_ok hk hnone hreserve hhoist
  exact ⟨r, document, hid, hfetch, by rw [hown, hbody], hadmits⟩

end SchemaBundle
