/-
When an embedding succeeds.

What a run needs can be said without running it: the way to the mount node leads through
objects, every reference that is met can be read, and every document that is demanded can be
had.  These three are enough, and none of them can be missing.

They are not the only ways to fail.  A run also gives names, and a name may run out.  But what
is in use is what was kept out from the start and what was stored, and what can be stored is
bounded by the map of documents, so a largest number above that leaves a name for everything.
Malformed references in a definition that is shared are met as well, although they are never
redirected there: they would have been met where the definition is stored.
-/
import Mathlib.Data.List.Dedup
import SchemaBundle.Proofs.Embed.Failure
import SchemaBundle.Proofs.Embed.Links
import SchemaBundle.Proofs.Embed.Loading
import SchemaBundle.Proofs.Embed.Steps
import SchemaBundle.Proofs.Embed.Traversal

namespace SchemaBundle

open Pointer MountPath
open Reference (documentPart placePart)

variable {e : Embedder} {loader : Loader} {root v w : Json} {kept : List String}
  {documents : List (String × Json)} {scope : Option String} {i raw : String} {q : Pointer}
  {c c' : Context} {error : Error}

/-! ### The way to a node -/

/-- The value that keys of objects lead to. -/
def Json.follow? : Json → List String → Option Json
  | value, [] => some value
  | value, key :: rest => (value.get? key).bind fun next => next.follow? rest

theorem Json.follow?_object (members : List (String × Json)) (key : String) (rest : List String) :
    (Json.object members).follow? (key :: rest) =
      (Entries.get? members key).bind fun next => next.follow? rest := rfl

/-- Keys of objects are a way that a pointer may take. -/
theorem Pointer.resolve?_of_follow? {u : Json} (h : v.follow? q = some u) :
    resolve? v q = some u := by
  induction q generalizing v with
  | nil => rw [resolve?_nil]; exact h
  | cons key rest ih =>
      cases v with
      | object members =>
          rw [Json.follow?_object] at h
          obtain ⟨next, hget, h⟩ := Option.bind_eq_some_iff.mp h
          rw [resolve?_object, hget, Option.bind_some, ih h]
      | null | bool _ | number _ | string _ | array _ =>
          simp [Json.follow?, Json.get?, Json.members?] at h

namespace Embedder

/-- **Both ways to walk to a node agree**: as long as only objects are met, it makes no
difference that a pointer could go through arrays as well. -/
theorem passes_iff :
    Passes v q ↔ ∀ p u, p <+: q → v.follow? p = some u → u.isObject = true := by
  constructor
  · intro h p u hp hu
    obtain ⟨members, rfl⟩ := h p hp u (resolve?_of_follow? hu)
    rfl
  · intro h
    induction q generalizing v with
    | nil =>
        intro t ht u hu
        rw [List.prefix_nil.mp ht, resolve?_nil, Option.some.injEq] at hu
        have hobject := h [] v List.nil_prefix rfl
        rw [hu] at hobject
        cases u <;> simp [Json.isObject] at hobject ⊢
    | cons segment rest ih =>
        have hobject := h [] v List.nil_prefix rfl
        cases v with
        | object members =>
            intro t ht u hu
            cases t with
            | nil =>
                rw [resolve?_nil, Option.some.injEq] at hu
                exact ⟨members, hu.symm⟩
            | cons first t =>
                obtain ⟨rfl, hrest⟩ := List.cons_prefix_cons.mp ht
                rw [resolve?_object] at hu
                obtain ⟨next, hget, hu⟩ := Option.bind_eq_some_iff.mp hu
                refine ih (fun p u hp hfollow => ?_) t hrest u hu
                refine h (first :: p) u (List.cons_prefix_cons.mpr ⟨rfl, hp⟩) ?_
                rw [Json.follow?_object, hget, Option.bind_some, hfollow]
        | null | bool _ | number _ | string _ | array _ => simp [Json.isObject] at hobject

/-- The references on the way do not matter. -/
theorem Passes.mapRefs (h : Passes v q) (f : String → String) : Passes (v.mapRefs f) q := by
  intro t ht u hu
  rw [resolve?_mapRefs] at hu
  obtain ⟨old, hold, rfl⟩ := Option.map_eq_some_iff.mp hu
  obtain ⟨members, rfl⟩ := h t ht old hold
  rw [mapRefsEnd_eq f (Or.inr rfl), Json.mapRefs_object]
  exact ⟨_, rfl⟩

theorem passes_empty (q : Pointer) : Passes (.object []) q := by
  intro t _ u hu
  cases t with
  | nil =>
      rw [resolve?_nil, Option.some.injEq] at hu
      exact ⟨[], hu.symm⟩
  | cons first t =>
      rw [resolve?_object] at hu
      simp at hu

/-- Where objects lead to the node, entries can be added to it. -/
theorem Passes.addAt (h : Passes v q) (mount : MountPath) (additions : List (String × Json)) :
    ∃ out, addAt mount additions q v = .ok out := by
  induction q generalizing v with
  | nil =>
      obtain ⟨members, rfl⟩ := h [] List.nil_prefix v (resolve?_nil v)
      exact ⟨_, rfl⟩
  | cons segment rest ih =>
      obtain ⟨members, rfl⟩ := h [] List.nil_prefix v (resolve?_nil v)
      have hchild : Passes ((Entries.get? members segment).getD (.object [])) rest := by
        cases hget : Entries.get? members segment with
        | none => exact passes_empty rest
        | some child => exact h.below hget
      obtain ⟨child, hadd⟩ := ih hchild
      rw [addAt_object, hadd]
      exact ⟨_, rfl⟩

/-- Where objects lead to the mount node of a root, it is no obstacle. -/
theorem existingNames_of_passes (h : Passes root e.mount.segments) :
    e.existingNames root = .ok (Entries.keys (nodeMembers root e.mount.segments)) := by
  unfold existingNames nodeMembers
  cases hnode : resolve? root e.mount.segments with
  | none => rfl
  | some u =>
      obtain ⟨members, rfl⟩ := h _ List.prefix_rfl u hnode
      rfl

end Embedder

/-! ### Names in use -/

namespace Context

/-- The names in use are those that were kept out and those of definitions. -/
structure Economical (maxSuffix : Nat) (kept : List String) (c : Context) : Prop where
  limit : c.allocator.maxSuffix = maxSuffix
  used : ∀ name ∈ c.allocator.taken, name ∈ kept ∨ c.definitions.contains name = true

variable {maxSuffix : Nat}

theorem economical_start (maxSuffix : Nat) (kept : List String) :
    (start maxSuffix kept).Economical maxSuffix kept where
  limit := NameAllocator.maxSuffix_reserveAll _ kept
  used := fun _ hname => (NameAllocator.mem_reserveAll_taken.mp hname).imp_right
    fun hempty => absurd hempty List.not_mem_nil

theorem Economical.congr (h : c.Economical maxSuffix kept) (halloc : c'.allocator = c.allocator)
    (hdefs : c'.definitions = c.definitions) : c'.Economical maxSuffix kept where
  limit := by rw [halloc, h.limit]
  used := by rw [halloc, hdefs]; exact h.used

/-- A name that is handed out is the name of what is stored next. -/
theorem Economical.store {base identity name : String} {content : Json}
    {allocator : NameAllocator} (h : c.Economical maxSuffix kept)
    (halloc : c.allocator.allocate base identity = .ok (name, allocator))
    (hafter : c'.allocator = allocator)
    (hdefs : c'.definitions = c.definitions.insert name content) :
    c'.Economical maxSuffix kept where
  limit := by rw [hafter, NameAllocator.maxSuffix_of_allocate halloc, h.limit]
  used := by
    intro other hother
    rw [hafter, (NameAllocator.allocate_ok halloc).2] at hother
    show _ ∨ (Entries.get? c'.definitions.entries other).isSome = true
    rw [hdefs]
    show _ ∨ (Entries.get? (Entries.insert name content _) other).isSome = true
    rw [Entries.isSome_get?_iff, Entries.mem_keys_insert, ← Entries.isSome_get?_iff]
    rcases List.mem_cons.mp hother with rfl | hother
    · exact Or.inr (Or.inl rfl)
    · exact (h.used other hother).imp_right Or.inr

theorem Economical.complete {name : String} (h : c.Economical maxSuffix kept) (v : Json) :
    (c.complete name v).Economical maxSuffix kept where
  limit := h.limit
  used := by
    intro other hother
    show _ ∨ (Entries.get? (Entries.insert name v _) other).isSome = true
    rw [Entries.isSome_get?_iff, Entries.mem_keys_insert, ← Entries.isSome_get?_iff]
    exact (h.used other hother).imp_right Or.inr

/-- **A request that fails finds the largest number used up** by what was kept out and by what
was stored. -/
theorem Economical.limit_le {base identity : String} {pieces : List Piece} {used : List String}
    (h : c.Economical maxSuffix kept) (hstored : Stored kept pieces c)
    (hkept : ∀ name ∈ kept, name ∈ used) (hbase : base ≠ "")
    (halloc : c.allocator.allocate base identity = .error error) :
    maxSuffix ≤ used.length + pieces.length := by
  have hall : ∀ name ∈ c.allocator.taken, name ∈ used ++ pieces.map Piece.name := by
    intro name hname
    rw [List.mem_append]
    exact (h.used name hname).imp (hkept name) (hstored.contains name).mp
  have hle := NameAllocator.maxSuffix_le_of_allocate_error halloc hbase hall
  rwa [h.limit, List.length_append, List.length_map] at hle

theorem Economical.hoistOne {identity key name : String} {shared : List (String × String)}
    {content : Json} (h : c.Economical maxSuffix kept)
    (hrun : Embedding.hoistOne identity shared key content c = .ok name c') :
    c'.Economical maxSuffix kept := by
  rcases hoistOne_cases hrun with ⟨-, rfl⟩ | ⟨-, allocator, halloc, rfl⟩
  · exact h
  · exact h.store halloc rfl rfl

theorem Economical.hoistAll {identity : String} {shared names : List (String × String)}
    {definitions : List (String × Json)} (h : c.Economical maxSuffix kept)
    (hrun : Embedding.hoistAll identity shared definitions c = .ok names c') :
    c'.Economical maxSuffix kept := by
  induction definitions generalizing c names with
  | nil =>
      unfold Embedding.hoistAll at hrun
      obtain ⟨rfl, rfl⟩ := Embedding.pure_eq_ok.mp hrun
      exact h
  | cons first rest ih =>
      obtain ⟨key, content⟩ := first
      unfold Embedding.hoistAll at hrun
      simp only [Embedding.bind_eq_ok, Embedding.pure_eq_ok] at hrun
      obtain ⟨name, c₁, hone, names', c₂, hrest, rfl, rfl⟩ := hrun
      exact ih (h.hoistOne hone) hrest

theorem Economical.opened {base name : String} {c₁ : Context} (h : c.Economical maxSuffix kept)
    (body : Json) (hrun : Embedding.reserveResource i base c = .ok name c₁) :
    (c₁.opened i name body).Economical maxSuffix kept := by
  obtain ⟨allocator, halloc, rfl⟩ := allocate_of_reserveResource hrun
  exact h.store halloc rfl rfl

/-- Embedding a document uses no name that it does not store something under. -/
theorem Economical.embed (h : c.Economical maxSuffix kept)
    (hrun : e.ensureEmbedded loader i c = .ok () c') : c'.Economical maxSuffix kept := by
  rcases Embedder.ensureEmbedded_cases hrun with
    ⟨rfl, -⟩ | ⟨name, c₁, document, -, hreserve, -, hhoist⟩
  · exact h
  · unfold Embedding.hoist at hhoist
    simp only [Embedding.bind_eq_ok, Embedding.get_eq_ok, Embedding.modify_eq_ok] at hhoist
    obtain ⟨a, c₂, ⟨rfl, rfl⟩, names, c₃, hall, rfl⟩ := hhoist
    refine ((h.opened _ hreserve).hoistAll hall).congr ?_ ?_
    · cases c₃.resource? i <;> rfl
    · cases c₃.resource? i <;> rfl

end Context

namespace Embedder

/-! ### What a run needs -/

/-- A reference that is met: it stands in the root, or in a document that has to be embedded,
beside the definitions of that document's own or inside one of them. -/
def Met (e : Embedder) (loader : Loader) (root : Json) (raw : String) : Prop :=
  raw ∈ root.refs ∨ ∃ i v, e.Demanded loader root i ∧ e.FoundIn loader i v ∧ raw ∈ v.refs

/-- What is met in a finite map of documents is read off the map. -/
theorem Met.of_documents {P : String → Prop} (hroot : ∀ raw ∈ root.refs, P raw)
    (hdocuments : ∀ entry ∈ documents, ∀ raw ∈ entry.2.refs, P raw)
    (h : e.Met (Loader.ofDocuments documents) root raw) : P raw := by
  rcases h with hraw | ⟨i, v, -, ⟨document, hdocument, hv⟩, hraw⟩
  · exact hroot raw hraw
  · refine hdocuments _ (Loader.mem_of_ofDocuments hdocument) raw ?_
    rcases hv with rfl | ⟨key, hown⟩
    · exact mem_refs_takeDefinitions.1 hraw
    · exact mem_refs_takeDefinitions.2 _ hown hraw

/-- So is what is demanded from it. -/
theorem Demanded.of_documents {P : String → Prop}
    (hroot : ∀ raw ∈ root.refs, e.Names raw (documentPart raw) →
      P (Identity.resolve none (documentPart raw)))
    (hdocuments : ∀ entry ∈ documents, ∀ raw ∈ entry.2.refs, e.Names raw (documentPart raw) →
      P (Identity.resolve (some entry.1) (documentPart raw)))
    (h : e.Demanded (Loader.ofDocuments documents) root i) : P i := by
  cases h with
  | root hraw hnames =>
      obtain rfl := hnames.1
      exact hroot _ hraw hnames
  | body _ hdocument hraw hnames =>
      obtain rfl := hnames.1
      exact hdocuments _ (Loader.mem_of_ofDocuments hdocument) _
        (mem_refs_takeDefinitions.1 hraw) hnames
  | own _ hdocument hcontent hraw hnames =>
      obtain rfl := hnames.1
      exact hdocuments _ (Loader.mem_of_ofDocuments hdocument) _
        (mem_refs_takeDefinitions.2 _ hcontent hraw) hnames

instance (e : Embedder) (raw url : String) : Decidable (e.Names raw url) :=
  inferInstanceAs (Decidable (_ ∧ _))

/-- What is taken for granted of a map of documents: no name that is tried is empty, ordinary
links are well formed, and there are names enough for everything that could be stored. -/
structure Admissible (e : Embedder) (documents : List (String × Json)) (root : Json) : Prop where
  named : ∀ i, e.Demanded (Loader.ofDocuments documents) root i → e.naming i ≠ ""
  keyed : ∀ i document, e.Demanded (Loader.ofDocuments documents) root i →
    Loader.ofDocuments documents i = .ok document →
    "" ∉ Entries.keys (e.mount.takeDefinitions document).1
  links : ∀ raw, e.Met (Loader.ofDocuments documents) root raw → '#' ∈ raw.toList →
    documentPart raw ≠ "" → e.classify (documentPart raw) = .link →
    ∃ reference, Reference.parse raw = .ok reference
  /-- The bound on the steps counts the documents and the definitions of their own. -/
  room : e.reserved.dedup.length + (nodeMembers root e.mount.segments).length +
    e.stepBound documents < e.maxSuffix

/-- What a run needs is there. -/
structure Complete (e : Embedder) (loader : Loader) (root : Json) : Prop where
  /-- On the way to the mount node, as far as it goes, there are objects only. -/
  passes : ∀ p u, p <+: e.mount.segments → root.follow? p = some u → u.isObject = true
  /-- References within a document, and references that are followed, can be read. -/
  wellFormed : ∀ raw, e.Met loader root raw → '#' ∈ raw.toList →
    (documentPart raw = "" ∨ e.classify (documentPart raw) = .embeddable) →
    ∃ reference, Reference.parse raw = .ok reference
  /-- Every document that is demanded can be had. -/
  served : ∀ i, e.Demanded loader root i →
    ∃ document, loader i = .ok document ∧ document.isNull = false

/-- Only a text with a `#` in it can be malformed. -/
theorem exists_readLink_iff : (∃ link, e.readLink raw = .ok link) ↔
    ('#' ∈ raw.toList → ∃ reference, Reference.parse raw = .ok reference) := by
  rw [readLink_ok_iff]
  by_cases hmem : '#' ∈ raw.toList
  · rw [Reference.parse_of_mem hmem]
    cases Pointer.parse (placePart raw) <;> simp [hmem]
  · rw [(Reference.parts_of_not_mem hmem).2]
    exact ⟨fun _ h => absurd h hmem, fun _ => ⟨[], rfl⟩⟩

/-- Whatever is met can be read, when what is followed can be and ordinary links are in order. -/
theorem Admissible.reads (h : e.Admissible documents root)
    (hneeds : e.Complete (Loader.ofDocuments documents) root)
    (hmet : e.Met (Loader.ofDocuments documents) root raw) :
    ∃ link, e.readLink raw = .ok link := by
  refine exists_readLink_iff.mpr fun hmem => ?_
  by_cases hempty : documentPart raw = ""
  · exact hneeds.wellFormed raw hmet hmem (Or.inl hempty)
  · cases hkind : e.classify (documentPart raw) with
    | embeddable => exact hneeds.wellFormed raw hmet hmem (Or.inr hkind)
    | link => exact h.links raw hmet hmem hempty hkind

/-! ### Nothing fails -/

/-- The names that are kept out: those that are never given, and those of the mount node. -/
def keptNames (e : Embedder) (root : Json) : List String :=
  e.reserved ++ Entries.keys (nodeMembers root e.mount.segments)

/-- A request for a name would have to come after more has been stored than there is. -/
theorem Admissible.stepBound_lt {base : String} {pieces : List Piece}
    (h : e.Admissible documents root) (hnames : c.Economical e.maxSuffix (e.keptNames root))
    (hstored : c.Stored (e.keptNames root) pieces) (hbase : base ≠ "")
    (halloc : c.allocator.allocate base i = .error error) :
    e.stepBound documents < pieces.length := by
  have hkept : ∀ name ∈ e.keptNames root,
      name ∈ e.reserved.dedup ++ Entries.keys (nodeMembers root e.mount.segments) := by
    intro name hname
    rwa [List.mem_append, List.mem_dedup, ← List.mem_append]
  have hle := hnames.limit_le hstored hkept hbase halloc
  have hroom := h.room
  rw [List.length_append, Entries.keys, List.length_map] at hle
  omega

/-- **A document that is demanded is embedded.** -/
theorem Admissible.embeds {H : List Record} (h : e.Admissible documents root)
    (hneeds : e.Complete (Loader.ofDocuments documents) root)
    (hholds : e.Holds (Loader.ofDocuments documents) (e.keptNames root) H c)
    (hnames : c.Economical e.maxSuffix (e.keptNames root))
    (hi : e.Demanded (Loader.ofDocuments documents) root i) :
    e.ensureEmbedded (Loader.ofDocuments documents) i c ≠ .error error c' := by
  intro hfails
  obtain ⟨hnone, halloc | ⟨name, c₁, hreserve, hfetch | ⟨document, hfetch, hhoist⟩⟩⟩ :=
    ensureEmbedded_error hfails
  · -- the document has no name
    have hlt := h.stepBound_lt hnames hholds.keeps.stored (h.named i hi) halloc
    exact absurd hholds.length_pieces_le (Nat.not_le.mpr hlt)
  · -- it cannot be had
    obtain ⟨document, hanswer⟩ := Loader.exists_fetch_iff.mpr (hneeds.served i hi)
    rw [hanswer] at hfetch
    simp at hfetch
  · -- one of its definitions has no name
    have hdocument := Loader.of_fetch hfetch
    obtain ⟨front, key, content, back, names, c₂, hsplit, hfront, hone⟩ :=
      Embedding.hoistAll_error (Embedding.hoist_error hhoist)
    have hopened := Context.stores_opened (e.mount.takeDefinitions document).2 hholds.keeps hreserve
    obtain ⟨L, rfl, -, hgives⟩ := Context.hoistAll_ok hopened.stored hfront
    have hkey : key ≠ "" := by
      rintro rfl
      refine h.keyed i document hi hdocument ?_
      rw [hsplit]
      exact List.mem_map.mpr ⟨("", content), List.mem_append_right _ List.mem_cons_self, rfl⟩
    have hlt := h.stepBound_lt ((hnames.opened _ hreserve).hoistAll hfront) hgives.stores.stored
      hkey (Context.hoistOne_error hone).1
    have hle := hholds.length_pieces_add_le hnone hdocument
    have hfresh := List.length_filter_le (fun d : LocalDefinition => d.fresh) L
    rw [hsplit] at hle
    simp only [List.length_append, List.length_cons, List.length_nil, List.length_map] at hlt hle
    omega

/-- Following references uses no name that nothing is stored under. -/
theorem economical_follows {raws texts : List String}
    (h : c.Economical e.maxSuffix kept) (hrun : Follows e loader scope raws texts c c') :
    c'.Economical e.maxSuffix kept :=
  hrun.preserves (fun _ _ _ _ _ {_ _} hc hembed => hc.embed hembed) h

/-- **References that are met are followed**, one after the other. -/
theorem Admissible.follows {H : List Record} {done active waiting : List Piece}
    {raws : List String} (h : e.Admissible documents root)
    (hneeds : e.Complete (Loader.ofDocuments documents) root)
    (hprogress : e.Progress (Loader.ofDocuments documents) root (e.keptNames root) H done active
      waiting c)
    (hnames : c.Economical e.maxSuffix (e.keptNames root))
    (hmet : ∀ raw ∈ raws, e.Met (Loader.ofDocuments documents) root raw)
    (hdemanded : ∀ raw ∈ raws, ∀ url, e.Names raw url →
      e.Demanded (Loader.ofDocuments documents) root (Identity.resolve scope url))
    (hpossible : error.Possible) :
    ¬ FailsAmong e (Loader.ofDocuments documents) scope raws c error c' := by
  rintro ⟨before, raw, after, texts, c₁, rfl, hbefore, hfails⟩
  obtain ⟨H', hthen, -, -⟩ := hprogress.follow
    (fun r hr => hdemanded r (List.mem_append_left _ hr)) hbefore
  have hraw : raw ∈ before ++ raw :: after := List.mem_append_right _ List.mem_cons_self
  rcases redirectRef_error hfails with hlink | ⟨url, pointer, hlink, hembed⟩ | ⟨i, hname⟩
  · obtain ⟨link, hok⟩ := h.reads hneeds (hmet raw hraw)
    rw [hok] at hlink
    simp at hlink
  · have hi := hdemanded raw hraw url (readLink_outside.mp hlink).1
    exact h.embeds hneeds hthen.holds (economical_follows hnames hbefore) hi hembed
  · exact hpossible i hname

/-- A context between two pieces of the worklist. -/
def Between (e : Embedder) (documents : List (String × Json)) (root : Json) (c : Context) : Prop :=
  (∃ H done waiting, e.Progress (Loader.ofDocuments documents) root (e.keptNames root) H done []
    waiting c) ∧ c.Economical e.maxSuffix (e.keptNames root)

theorem Between.step {more : Bool} (h : e.Between documents root c)
    (hrun : e.step (Loader.ofDocuments documents) c = .ok more c') :
    e.Between documents root c' := by
  obtain ⟨⟨H, done, waiting, hprogress⟩, hnames⟩ := h
  refine ⟨?_, ?_⟩
  · rcases hprogress.step hrun with ⟨-, -, rfl⟩ | ⟨p, rest, H', -, -, hthen⟩
    · exact ⟨H, done, waiting, hprogress⟩
    · exact ⟨_, _, _, hthen⟩
  · rcases step_ok hrun with ⟨-, -, rfl⟩ | ⟨pending, rest, w, c₂, -, -, hredirect, rfl⟩
    · exact hnames
    · obtain ⟨texts, hfollows, -⟩ := redirect_follows hredirect
      have htaken : ({ c with worklist := rest } : Context).Economical e.maxSuffix
          (e.keptNames root) := hnames.congr rfl rfl
      exact (economical_follows htaken hfollows).complete w

/-- **No step fails.** -/
theorem Admissible.steps (h : e.Admissible documents root)
    (hneeds : e.Complete (Loader.ofDocuments documents) root) (hc : e.Between documents root c)
    (hpossible : error.Possible) : e.step (Loader.ofDocuments documents) c ≠ .error error c' := by
  intro hfails
  obtain ⟨⟨H, done, waiting, hprogress⟩, hnames⟩ := hc
  obtain ⟨pending, rest, hwork, hredirect⟩ := step_error hfails
  obtain ⟨p, waiting', rfl, rfl, rfl, hmem, hraw⟩ := hprogress.head hwork
  rw [hraw] at hredirect
  obtain ⟨r, hr, hp⟩ := List.mem_flatMap.mp hmem
  have hi : e.Demanded (Loader.ofDocuments documents) root p.identity :=
    Record.identity_of_mem_pieces hp ▸ hprogress.demanded r hr
  exact h.follows hneeds hprogress.take (hnames.congr rfl rfl)
    (fun raw hraw => Or.inr ⟨_, _, hi, hprogress.holds.foundIn hmem, hraw⟩)
    (fun raw hraw url hurl => hprogress.holds.demanded_of_mem hprogress.demanded hmem hraw hurl)
    hpossible (redirect_error hredirect)

/-- The root and what it leads to are redirected. -/
theorem Admissible.traverses (h : e.Admissible documents root)
    (hneeds : e.Complete (Loader.ofDocuments documents) root) {steps : Nat}
    (hpossible : error.Possible) :
    e.traverse (Loader.ofDocuments documents) steps root
      (Context.start e.maxSuffix (e.keptNames root)) ≠ .error error c' := by
  intro hfails
  have hstart := e.progress_start (Loader.ofDocuments documents) root
    (Entries.keys (nodeMembers root e.mount.segments))
  have hnames := Context.economical_start e.maxSuffix (e.keptNames root)
  rcases traverse_error hfails with hroot | ⟨w, c₁, hroot, hdrain⟩
  · exact h.follows hneeds hstart hnames (fun raw hraw => Or.inl hraw)
      (fun raw hraw url hurl => Demanded.root hraw hurl) hpossible (redirect_error hroot)
  · obtain ⟨H₁, h₁, -⟩ := hstart.redirect
      (fun raw hraw url hurl => Demanded.root hraw hurl) hroot
    obtain ⟨texts, hfollows, -⟩ := redirect_follows hroot
    have hbetween : e.Between documents root c₁ :=
      ⟨⟨_, _, _, h₁⟩, economical_follows hnames hfollows⟩
    obtain ⟨c₂, hbetween, hstep⟩ := drain_error (fun hc hstep => hc.step hstep) hbetween hdrain
    exact h.steps hneeds hbetween hpossible hstep

/-! ### Nothing is missing -/

namespace Finished

variable {existing : List String} {H : List Record} {out : Embedded}
  (hfin : e.Finished loader root existing H c out)
include hfin

/-- Whatever is met was followed, also in a definition that is shared. -/
theorem settled_of_met (hs : e.Sound H) (hmet : e.Met loader root raw) :
    ∃ scope, e.Settled c scope raw := by
  rcases hmet with hraw | ⟨i, v, hi, ⟨document, hdocument, hv⟩, hraw⟩
  · obtain ⟨w, hdone, -⟩ := hfin.root
    exact ⟨none, hdone.settled raw hraw⟩
  · obtain ⟨r, hr, rfl, htake⟩ := hfin.exists_record ((hfin.mem_loaded_iff hs).mpr hi) hdocument
    refine ⟨some r.identity, ?_⟩
    rw [htake] at hv
    rcases hv with rfl | ⟨key, hown⟩
    · obtain ⟨w, -, hdone⟩ := hfin.done_body hr
      exact hdone.settled raw hraw
    · obtain ⟨d, hd, heq⟩ := List.mem_map.mp hown
      obtain ⟨-, rfl⟩ := Prod.mk.inj heq
      exact (hfin.done_own hs hr hd).2 raw hraw

/-- What a run needs was there, if it has succeeded. -/
theorem complete (hs : e.Sound H) : e.Complete loader root where
  passes := passes_iff.mp fun p hp => (hfin.above hp).2
  wellFormed := by
    intro raw hmet hmem _
    obtain ⟨scope, hsettled⟩ := hfin.settled_of_met hs hmet
    exact exists_readLink_iff.mp hsettled.reads hmem
  served := by
    intro i hi
    obtain ⟨r, hr, rfl⟩ := hfin.mem_loaded.mp ((hfin.mem_loaded_iff hs).mpr hi)
    obtain ⟨document, hfetch, -⟩ := hfin.holds.documents r hr
    exact Loader.exists_fetch_iff.mp ⟨document, hfetch⟩

end Finished

/-- **An embedding succeeds exactly if what it needs is there**: on the way to the mount node
there are objects only, every reference that is met and has to be read is well formed, and every
document that is demanded can be had. -/
theorem run_succeeds_iff (hobject : root.isObject = true)
    (hl : (Loader.ofDocuments documents).Ordered) (h : e.Admissible documents root) :
    (∃ out, (e.runOn documents root).outcome = .done out) ↔
      e.Complete (Loader.ofDocuments documents) root := by
  constructor
  · rintro ⟨out, hout⟩
    obtain ⟨-, existing, H, hfin⟩ := finished_of_run hout
    exact hfin.complete (hfin.holds.sound hl)
  · intro hneeds
    have hpasses := passes_iff.mpr hneeds.passes
    have hexisting : e.existingNames root = _ := existingNames_of_passes hpasses
    cases hout : (e.runOn documents root).outcome with
    | done out => exact ⟨out, rfl⟩
    | unfinished =>
        obtain ⟨existing, c, -, hshort⟩ := run_unfinished hout
        exact absurd hshort ((e.traverse_ends documents root existing 0).1 c)
    | failed error =>
        have hpossible := run_possible hout
        rcases run_failed hobject hout with hfails | ⟨existing, hok, hfails⟩
        · rw [hexisting] at hfails
          simp at hfails
        · rw [hexisting] at hok
          obtain rfl := Except.ok.inj hok
          rcases hfails with ⟨c, htraverse⟩ | ⟨w, c, htraverse, hfinish⟩
          · exact absurd htraverse (h.traverses hneeds hpossible)
          · -- the redirected root is as passable as the root
            obtain ⟨H, -, -, -, hdone⟩ := traverse_done htraverse
            have hw : Passes w e.mount.segments := hdone.eq ▸ hpasses.mapRefs _
            obtain ⟨added, hadd⟩ := hw.addAt e.mount c.definitions.entries
            unfold finish MountPath.addDefinitions at hfinish
            rw [hadd] at hfinish
            simp [Except.map] at hfinish

theorem run_succeeds_iff_twins : standard.Complete (Loader.ofDocuments twins) twinsRoot := by
  have hadm : standard.Admissible twins twinsRoot := by
    refine ⟨fun i hi => ?_, fun i document _ hdocument => ?_, fun raw hmet _ hnamed hlink => ?_, ?_⟩
    · exact hi.of_documents (P := fun i => Naming.fileStem i ≠ "") (by decide +kernel)
        (by decide +kernel)
    · have hkeys : ∀ entry ∈ twins,
          "" ∉ Entries.keys (standard.mount.takeDefinitions entry.2).1 := by decide +kernel
      exact hkeys _ (Loader.mem_of_ofDocuments hdocument)
    · -- the twins have no ordinary links
      have hnone := hmet.of_documents
        (P := fun raw => documentPart raw ≠ "" → standard.classify (documentPart raw) ≠ .link)
        (by decide +kernel) (by decide +kernel)
      exact absurd hlink (hnone hnamed)
    · decide +kernel
  exact (run_succeeds_iff rfl twins_ordered hadm).mp twins_done

end Embedder

end SchemaBundle
