/-
How names are given makes no difference but for the names.

Two runs of embedders that differ only in that store the same pieces in the same order, so
there is one map that takes the names of the first to the names of the second.  It takes the
place of every document to the place of that document: for what was stored under a new name
by construction, and for a definition that is shared because both runs share it with the same
one, for the reason that does not mention names.

Texts of references name places, so they are carried along.  In the outputs a reference that
was redirected has the name of one new definition, or the name that the map takes it to, and
every other text is the same.
-/
import Mathlib.Data.Set.Function
import SchemaBundle.Proofs.Embed.Loading
import SchemaBundle.Proofs.Embed.Lockstep

namespace SchemaBundle

open Record (AlikeAt)

variable {e e' : Embedder} {loader : Loader} {root : Json} {existing names : List String}
  {H H' : List Record} {r s r' s' : Record} {d d' : LocalDefinition} {σ : String → String}
  {scope : Option String} {raw : String} {steps steps' : Nat} {kept kept' : List String}
  {c c' : Context}
  {out out' : Embedded}

/-! ### Renaming -/

/-- The place of a document under other names. -/
def Resource.rename (σ : String → String) (resource : Resource) : Resource :=
  ⟨σ resource.name, Entries.mapValues σ resource.localNames⟩

/-- Something stored under another name. -/
def Piece.rename (σ : String → String) (p : Piece) : Piece :=
  { p with name := σ p.name }

/-- A definition with another name. -/
def LocalDefinition.rename (σ : String → String) (d : LocalDefinition) : LocalDefinition :=
  { d with name := σ d.name }

/-- Lists of different entries are taken to each other by a map. -/
private theorem exists_eq_map {α : Type} [DecidableEq α] {xs ys : List α} (hnd : xs.Nodup)
    (hlength : xs.length = ys.length) : ∃ f : α → α, ys = xs.map f := by
  induction xs generalizing ys with
  | nil => exact ⟨id, List.length_eq_zero_iff.mp hlength.symm⟩
  | cons x xs ih =>
      obtain ⟨hx, hxs⟩ := List.nodup_cons.mp hnd
      cases ys with
      | nil => simp at hlength
      | cons y ys =>
          obtain ⟨f, rfl⟩ := ih hxs (Nat.succ.inj hlength)
          refine ⟨Function.update f x y, ?_⟩
          rw [List.map_cons, Function.update_self]
          congr 1
          refine List.map_congr_left fun a ha => ?_
          rw [Function.update_of_ne fun heq : a = x => hx (heq ▸ ha)]

/-- A list whose entries are determined by two of their parts. -/
private theorem eq_map_of_parts {α β γ : Type} {f : α → β} {g : α → γ} {k : α → α}
    {xs ys : List α} (hk : ∀ x y, f x = f y → g y = g (k x) → y = k x)
    (hf : xs.map f = ys.map f) (hg : ys.map g = xs.map fun x => g (k x)) : ys = xs.map k := by
  induction xs generalizing ys with
  | nil => exact List.map_eq_nil_iff.mp hf.symm
  | cons x xs ih =>
      cases ys with
      | nil => simp at hf
      | cons y ys =>
          rw [List.map_cons, List.map_cons, List.cons.injEq] at hf hg
          rw [List.map_cons, ← hk x y hf.1 hg.1, ← ih hf.2 hg.2]

/-- The names that are given to definitions, by their keys. -/
private theorem map_names_eq {L L' : List LocalDefinition}
    (hkeys : L'.map (·.key) = L.map (·.key))
    (hnames : ∀ d ∈ L, ∀ d' ∈ L', d'.key = d.key → d'.name = σ d.name) :
    L'.map (fun d => (d.key, d.name)) = L.map fun d => (d.key, σ d.name) := by
  induction L generalizing L' with
  | nil =>
      rw [List.map_eq_nil_iff.mp hkeys]
      rfl
  | cons d L ih =>
      cases L' with
      | nil => simp at hkeys
      | cons d' L' =>
          rw [List.map_cons, List.map_cons, List.cons.injEq] at hkeys
          obtain ⟨hkey, hkeys⟩ := hkeys
          have hrest := ih hkeys fun ε hε ε' hε' =>
            hnames ε (List.mem_cons_of_mem _ hε) ε' (List.mem_cons_of_mem _ hε')
          rw [List.map_cons, List.map_cons, hrest, hkey,
            hnames d List.mem_cons_self d' List.mem_cons_self hkey]

/-! ### Records of two runs -/

/-- One document in two runs: the same but for names, and what is stored for it in the first
is taken to what is stored for it in the second. -/
structure Counterpart (σ : String → String) (r r' : Record) : Prop where
  same : r.unnamed = r'.unnamed
  stored : r'.pieces.map Piece.name = (r.pieces.map Piece.name).map σ

theorem counterparts (h : H.map Record.unnamed = H'.map Record.unnamed)
    (hσ : (H'.flatMap Record.pieces).map Piece.name =
      ((H.flatMap Record.pieces).map Piece.name).map σ) :
    List.Forall₂ (Counterpart σ) H H' := by
  induction H generalizing H' with
  | nil =>
      obtain rfl := List.map_eq_nil_iff.mp h.symm
      exact List.Forall₂.nil
  | cons r rest ih =>
      cases H' with
      | nil => simp at h
      | cons r' rest' =>
          rw [List.map_cons, List.map_cons, List.cons.injEq] at h
          obtain ⟨hr, hrest⟩ := h
          have hlength : r'.pieces.length = r.pieces.length := by
            have hpieces := congrArg (List.length ∘ Record.pieces) hr
            simp only [Function.comp_apply, Record.pieces_unnamed, List.length_map] at hpieces
            exact hpieces.symm
          simp only [List.flatMap_cons, List.map_append] at hσ
          obtain ⟨hfirst, hothers⟩ := List.append_inj hσ (by simp only [List.length_map, hlength])
          exact List.Forall₂.cons ⟨hr, hfirst⟩ (ih hrest hothers)

namespace Counterpart

variable (h : Counterpart σ r r')
include h

theorem identity_eq : r'.identity = r.identity :=
  (congrArg Record.identity h.same).symm

theorem name_eq : r'.name = σ r.name :=
  (List.cons.inj h.stored).1

theorem locals_eq : r.locals.map LocalDefinition.unnamed = r'.locals.map LocalDefinition.unnamed :=
  congrArg Record.locals h.same

theorem keys_eq : r'.locals.map (·.key) = r.locals.map (·.key) := by
  have hkey : (fun d : LocalDefinition => d.key) ∘ LocalDefinition.unnamed = (·.key) := rfl
  rw [← hkey, ← List.map_map, ← h.locals_eq, List.map_map]

/-- What is stored for one of its definitions. -/
theorem exists_stored (hd : d ∈ r.locals) (hfresh : d.fresh = true) :
    d.rename σ ∈ r'.locals := by
  have hfilter : ∀ L : List LocalDefinition, (L.filter (·.fresh)).map LocalDefinition.unnamed =
      (L.map LocalDefinition.unnamed).filter (·.fresh) := by
    intro L
    rw [List.filter_map]
    rfl
  have hnames := (List.cons.inj h.stored).2
  simp only [List.map_map] at hnames
  have hstored : r'.locals.filter (·.fresh) =
      (r.locals.filter (·.fresh)).map (LocalDefinition.rename σ) := by
    refine eq_map_of_parts (f := LocalDefinition.unnamed) (g := LocalDefinition.name) ?_ ?_ hnames
    · rintro ⟨key, name, content, fresh⟩ ⟨key', name', content', fresh'⟩ hparts hname
      simp only [LocalDefinition.unnamed, LocalDefinition.mk.injEq, true_and] at hparts
      obtain ⟨rfl, rfl, rfl⟩ := hparts
      exact congrArg (LocalDefinition.mk _ · _ _) hname
    · rw [hfilter, hfilter, h.locals_eq]
  have hmem : d.rename σ ∈ r'.locals.filter (·.fresh) := by
    rw [hstored]
    exact List.mem_map_of_mem (List.mem_filter.mpr ⟨hd, hfresh⟩)
  exact (List.mem_filter.mp hmem).1

end Counterpart

/-- Two documents have one name for a definition of their own. -/
def Context.Shares (c : Context) (i j key : String) : Prop :=
  ∃ here there name, c.resource? i = some here ∧ c.resource? j = some there ∧
    Entries.get? here.localNames key = some name ∧ Entries.get? there.localNames key = some name

namespace Embedder

section

variable (hkin : e.Kin e') (hs : e.Sound H) (hs' : e'.Sound H') (hk' : c'.Keeps kept' H')
  (hall : List.Forall₂ (Counterpart σ) H H') (hr : r ∈ H) (hr' : r' ∈ H')
  (h : Counterpart σ r r')
include hkin hs hs' hk' hall hr hr' h

/-- **Names of definitions are taken to each other**, those that are shared as well. -/
theorem Sound.rename_local (hd : d ∈ r.locals) (hd' : d' ∈ r'.locals) (hkey : d'.key = d.key) :
    d'.name = σ d.name := by
  obtain ⟨s, hmem, δ, hδ, hfresh, hδkey, hδname, hrel⟩ := hs.origin r hr d hd
  obtain ⟨s', hmem', hcount⟩ := exists_right_of_mem hall hmem
  have hstored := hcount.exists_stored hδ hfresh
  have hkeys : d'.key = (δ.rename σ).key := hkey.trans hδkey.symm
  rw [← hδname]
  by_cases heq : r' = s'
  · subst heq
    exact congrArg LocalDefinition.name (Record.eq_of_key (hs'.distinct r' hr') hd' hstored hkeys)
  · have hne : r ≠ s := by
      rintro rfl
      exact heq (hk'.eq_of_identity hr' hmem' (h.identity_eq.trans hcount.identity_eq.symm))
    have halike : AlikeAt e' r' s' d'.key := by
      rw [hkin.alikeAt, hkey, ← Record.alikeAt_unnamed, ← h.same, ← hcount.same,
        Record.alikeAt_unnamed]
      exact hrel.resolve_left hne
    exact (hs'.name_eq_iff hk' hr' hmem' heq hd' hstored hkeys).mpr halike

theorem Sound.rename_resource : r'.resource = r.resource.rename σ := by
  unfold Record.resource Resource.rename
  rw [h.name_eq, map_names_eq h.keys_eq fun d hd d' hd' hkey =>
    hs.rename_local hkin hs' hk' hall hr hr' h hd hd' hkey]
  simp [Entries.mapValues]

end

/-! ### Outputs of two runs -/

/-- The texts of one reference in two outputs. One that leads to no embedded document stands
in both as it was written; any other leads in both to the same place below a new definition,
under the name that it has in the first and under the one that it has in the second. -/
def Corresponds (e : Embedder) (σ : String → String) (names : List String)
    (scope : Option String) (raw here there : String) : Prop :=
  match e.leadsTo? scope raw with
  | none => here = raw ∧ there = raw
  | some _ => ∃ name ∈ names, ∃ rest,
      here = (Reference.internal (e.mount.segments ++ name :: rest)).format ∧
      there = (Reference.internal (e.mount.segments ++ σ name :: rest)).format

/-- What has become of one value in two outputs: texts of references have changed, and they
correspond. -/
def Rewritten (e : Embedder) (σ : String → String) (names : List String)
    (scope : Option String) (v here there : Json) : Prop :=
  ∃ f g, here = v.mapRefs f ∧ there = v.mapRefs g ∧
    ∀ raw ∈ v.refs, e.Corresponds σ names scope raw (f raw) (g raw)

/-- One output is another one with its new definitions renamed. -/
structure Renames (e : Embedder) (loader : Loader) (root : Json) (σ : String → String)
    (c c' : Context) (out out' : Embedded) : Prop where
  /-- New names are taken to new names, one for one. -/
  bijective : Set.BijOn σ {name | name ∈ out.definitions.order}
    {name | name ∈ out'.definitions.order}
  /-- They were inserted in the same order. -/
  order : out'.definitions.order = out.definitions.order.map σ
  /-- The name of every document is taken to its name. -/
  names : ∀ i, Entries.get? out'.names i = (Entries.get? out.names i).map σ
  /-- So are the names of its own definitions. -/
  places : ∀ i, c'.resource? i = (c.resource? i).map (Resource.rename σ)
  /-- What is shared does not depend on names. -/
  shares : ∀ i j key, c'.Shares i j key ↔ c.Shares i j key
  /-- A definition is the same in both, but for names in the texts of references. -/
  definitions : ∀ name ∈ out.definitions.order, ∃ i ∈ c.loaded, ∃ v here there,
    e.FoundIn loader i v ∧ e.Rewritten σ out.definitions.order (some i) v here there ∧
      out.definitions.get? name = some here ∧ out'.definitions.get? (σ name) = some there
  /-- And so is the root, to which the definitions are added. -/
  document : ∃ here there, e.Rewritten σ out.definitions.order none root here there ∧
    e.mount.addDefinitions out.definitions.entries here = .ok out.document ∧
    e.mount.addDefinitions out'.definitions.entries there = .ok out'.document

/-! ### Places and texts -/

/-- A place of a document is below one of its names, and below the other one after renaming. -/
theorem place_rename (e : Embedder) (σ : String → String) (resource : Resource) (p : Pointer) :
    ∃ name rest, (name = resource.name ∨ ∃ key, Entries.get? resource.localNames key = some name) ∧
      e.place resource p = e.mount.segments ++ name :: rest ∧
      e.place (resource.rename σ) p = e.mount.segments ++ σ name :: rest := by
  unfold place
  cases hbelow : e.mount.below? p with
  | none => exact ⟨resource.name, p, Or.inl rfl, rfl, rfl⟩
  | some found =>
      obtain ⟨key, rest⟩ := found
      cases hget : Entries.get? resource.localNames key with
      | none =>
          refine ⟨resource.name, p, Or.inl rfl, ?_, ?_⟩ <;>
            simp [Resource.rename, Entries.get?_mapValues, hget]
      | some name =>
          refine ⟨name, rest, Or.inr ⟨key, hget⟩, ?_, ?_⟩ <;>
            simp [Resource.rename, Entries.get?_mapValues, hget]

/-- A reference that has been followed in both runs has texts that correspond. -/
theorem Settled.corresponds (hkin : e.Kin e')
    (hplaces : ∀ i, c'.resource? i = (c.resource? i).map (Resource.rename σ))
    (hnames : ∀ i resource, c.resource? i = some resource → resource.name ∈ names ∧
      ∀ key name, Entries.get? resource.localNames key = some name → name ∈ names)
    (h : e.Settled c scope raw) :
    e.Corresponds σ names scope raw (e.retarget (e.placeIn c) scope raw)
      (e'.retarget (e'.placeIn c') scope raw) := by
  unfold Corresponds retarget
  rw [hkin.leadsTo?]
  cases hleads : e.leadsTo? scope raw with
  | none => exact ⟨rfl, rfl⟩
  | some found =>
      obtain ⟨i, p⟩ := found
      obtain ⟨resource, hres⟩ := Option.isSome_iff_exists.mp (h.known i p hleads)
      obtain ⟨hname, hlocal⟩ := hnames i resource hres
      obtain ⟨name, rest, hcases, hplace, hrenamed⟩ := e.place_rename σ resource p
      refine ⟨name, ?_, rest, ?_, ?_⟩
      · rcases hcases with rfl | ⟨key, hget⟩
        · exact hname
        · exact hlocal key name hget
      · simp only [placeIn, hres, hplace]
      · simp only [placeIn, hplaces i, hres, Option.map_some, hkin.place, hrenamed]

/-- What was redirected in both runs. -/
theorem Done.rewritten {v w w' : Json} (hkin : e.Kin e')
    (hplaces : ∀ i, c'.resource? i = (c.resource? i).map (Resource.rename σ))
    (hnames : ∀ i resource, c.resource? i = some resource → resource.name ∈ names ∧
      ∀ key name, Entries.get? resource.localNames key = some name → name ∈ names)
    (h : e.Done c scope v w) (h' : e'.Done c' scope v w') :
    e.Rewritten σ names scope v w w' :=
  ⟨_, _, h.eq, h'.eq, fun raw hraw => (h.settled raw hraw).corresponds hkin hplaces hnames⟩

namespace Finished

/-- All names of a document are names of new definitions. -/
theorem names_mem (hfin : e.Finished loader root existing H c out) (hs : e.Sound H) {i : String}
    {resource : Resource} (hres : c.resource? i = some resource) :
    resource.name ∈ out.definitions.order ∧
      ∀ key name, Entries.get? resource.localNames key = some name →
        name ∈ out.definitions.order := by
  obtain ⟨r, hr, -, rfl⟩ := (hfin.holds.keeps.resources i resource).mp hres
  constructor
  · obtain ⟨w, hw, -⟩ := hfin.done_body hr
    rw [hfin.mem_order, show r.resource.name = r.name from rfl, hw]
    rfl
  · intro key name hget
    obtain ⟨d, hd, -, rfl⟩ := Record.of_get?_localNames hget
    obtain ⟨⟨w, hw, -⟩, -⟩ := hfin.done_own hs hr hd
    rw [hfin.mem_order, hw]
    rfl

theorem get?_names_eq (hfin : e.Finished loader root existing H c out) (i : String) :
    Entries.get? out.names i = (c.resource? i).map Resource.name := by
  rw [hfin.names, Context.assignedNames, Entries.get?_mapValues]
  rfl

end Finished

/-- Where places are renamed one for one, the same definitions are shared. -/
theorem shares_iff (hplaces : ∀ i, c'.resource? i = (c.resource? i).map (Resource.rename σ))
    (hinj : Set.InjOn σ {name | name ∈ names})
    (hnames : ∀ i resource, c.resource? i = some resource → resource.name ∈ names ∧
      ∀ key name, Entries.get? resource.localNames key = some name → name ∈ names)
    (i j key : String) : c'.Shares i j key ↔ c.Shares i j key := by
  have hget : ∀ resource : Resource, Entries.get? (resource.rename σ).localNames key =
      (Entries.get? resource.localNames key).map σ := fun resource =>
    Entries.get?_mapValues σ resource.localNames key
  unfold Context.Shares
  simp only [hplaces, Option.map_eq_some_iff]
  constructor
  · rintro ⟨_, _, name, ⟨here, hhere, rfl⟩, ⟨there, hthere, rfl⟩, hname, hname'⟩
    rw [hget, Option.map_eq_some_iff] at hname hname'
    obtain ⟨old, hold, rfl⟩ := hname
    obtain ⟨old', hold', heq⟩ := hname'
    have hmem := (hnames i here hhere).2 key old hold
    have hmem' := (hnames j there hthere).2 key old' hold'
    obtain rfl := hinj hmem' hmem heq
    exact ⟨here, there, _, hhere, hthere, hold, hold'⟩
  · rintro ⟨here, there, name, hhere, hthere, hname, hname'⟩
    refine ⟨_, _, σ name, ⟨here, hhere, rfl⟩, ⟨there, hthere, rfl⟩, ?_, ?_⟩
    · rw [hget, hname, Option.map_some]
    · rw [hget, hname', Option.map_some]

/-- The places of documents after two runs that have gone in step. -/
theorem places_of_counterparts (hkin : e.Kin e') (hs : e.Sound H) (hs' : e'.Sound H')
    (hk : c.Keeps kept H) (hk' : c'.Keeps kept' H')
    (same : H.map Record.unnamed = H'.map Record.unnamed)
    (hall : List.Forall₂ (Counterpart σ) H H') (i : String) :
    c'.resource? i = (c.resource? i).map (Resource.rename σ) := by
  cases hres : c.resource? i with
  | none =>
      rw [Option.map_none, ← Option.not_isSome_iff_eq_none, hk'.isSome_resource?,
        ← identities_eq_of_unnamed same, ← hk.isSome_resource?, hres]
      simp
  | some resource =>
      obtain ⟨r, hr, rfl, rfl⟩ := (hk.resources i resource).mp hres
      obtain ⟨r', hr', hcount⟩ := exists_right_of_mem hall hr
      rw [← hcount.identity_eq, hk'.resource_of_mem hr', Option.map_some,
        hs.rename_resource hkin hs' hk' hall hr hr' hcount]

/-- Two runs that have gone in step. -/
theorem renames_of_finished (hkin : e.Kin e') (hl : loader.Ordered)
    (same : H.map Record.unnamed = H'.map Record.unnamed)
    (hfin : e.Finished loader root existing H c out)
    (hfin' : e'.Finished loader root existing H' c' out') :
    ∃ σ, e.Renames loader root σ c c' out out' := by
  have hk := hfin.holds.keeps
  have hk' := hfin'.holds.keeps
  have hs := hfin.holds.sound hl
  have hpieces := pieces_eq_of_unnamed same
  obtain ⟨σ, hσ⟩ : ∃ σ, (H'.flatMap Record.pieces).map Piece.name =
      ((H.flatMap Record.pieces).map Piece.name).map σ := by
    refine exists_eq_map hk.stored.nodup ?_
    have hlength := congrArg List.length hpieces
    simpa only [List.length_map] using hlength
  have hall := counterparts same hσ
  have hplaces := places_of_counterparts hkin hs (hfin'.holds.sound hl) hk hk' same hall
  have hnames := fun i resource (hres : c.resource? i = some resource) => hfin.names_mem hs hres
  have horder : out'.definitions.order = out.definitions.order.map σ := by
    rw [hfin.order_eq, hfin'.order_eq, hσ]
  have hinj : Set.InjOn σ {name | name ∈ out.definitions.order} := by
    have hnd := hk'.stored.nodup
    rw [← hfin'.order_eq, horder] at hnd
    exact fun a ha b hb heq => List.inj_on_of_nodup_map hnd ha hb heq
  refine ⟨σ, ⟨⟨?_, hinj, ?_⟩, horder, fun i => ?_, hplaces, shares_iff hplaces hinj hnames, ?_, ?_⟩⟩
  · intro name hname
    show σ name ∈ out'.definitions.order
    rw [horder]
    exact List.mem_map_of_mem hname
  · intro name hname
    replace hname : name ∈ out'.definitions.order := hname
    rw [horder] at hname
    exact List.mem_map.mp hname
  · rw [hfin.get?_names_eq, hfin'.get?_names_eq, hplaces, Option.map_map, Option.map_map]
    rfl
  · intro name hname
    rw [hfin.order_eq] at hname
    obtain ⟨p, hp, rfl⟩ := List.mem_map.mp hname
    have hrenamed : H'.flatMap Record.pieces = (H.flatMap Record.pieces).map (Piece.rename σ) := by
      refine eq_map_of_parts (f := Piece.unnamed) (g := Piece.name) ?_ hpieces ?_
      · rintro ⟨name, identity, content⟩ ⟨name', identity', content'⟩ hparts hname
        simp only [Piece.unnamed, Piece.mk.injEq, true_and] at hparts
        obtain ⟨rfl, rfl⟩ := hparts
        exact congrArg (Piece.mk · _ _) hname
      · rw [hσ, List.map_map]
        rfl
    have hloaded : p.identity ∈ c.loaded := by
      obtain ⟨r, hr, hpr⟩ := List.mem_flatMap.mp hp
      rw [Record.identity_of_mem_pieces hpr]
      exact hfin.mem_loaded.mpr ⟨r, hr, rfl⟩
    obtain ⟨w, hw, hdone⟩ := hfin.finished p hp
    obtain ⟨w', hw', hdone'⟩ := hfin'.finished (p.rename σ) (hrenamed ▸ List.mem_map_of_mem hp)
    exact ⟨p.identity, hloaded, p.content, w, w', hfin.holds.foundIn hp,
      hdone.rewritten hkin hplaces hnames hdone', hfin.definitions ▸ hw, hfin'.definitions ▸ hw'⟩
  · obtain ⟨w, hdone, hadd⟩ := hfin.root
    obtain ⟨w', hdone', hadd'⟩ := hfin'.root
    rw [hkin.mount] at hadd'
    exact ⟨w, w', hdone.rewritten hkin hplaces hnames hdone', hfin.definitions ▸ hadd,
      hfin'.definitions ▸ hadd'⟩

/-- **Naming is pure policy.** Two runs that differ in how names are given load the same
documents in the same order, and the second output is the first one with the new definitions
renamed, one for one. -/
theorem run_renamed (hl : loader.Ordered) {naming : Naming} {reserved : List String}
    {maxSuffix : Nat} (h : (e.run loader steps root).outcome = .done out)
    (h' : (({ e with naming, reserved, maxSuffix } : Embedder).run loader steps' root).outcome =
      .done out') :
    (({ e with naming, reserved, maxSuffix } : Embedder).run loader steps' root).loaded =
        (e.run loader steps root).loaded ∧
      ∃ σ, e.Renames loader root σ (e.endContext loader steps root)
        (({ e with naming, reserved, maxSuffix } : Embedder).endContext loader steps' root)
        out out' := by
  have hkin : e.Kin { e with naming, reserved, maxSuffix } := ⟨rfl, rfl⟩
  obtain ⟨existing, H, H', same, hfin, hfin'⟩ := finished_abreast hkin hl h h'
  refine ⟨?_, renames_of_finished hkin hl same hfin hfin'⟩
  rw [(finished_of_run h').1, (finished_of_run h).1, hfin'.holds.keeps.loaded,
    hfin.holds.keeps.loaded, identities_eq_of_unnamed same]

/-- The twins under other names: the definition that both have is shared all the same. -/
theorem run_renamed_twins :
    ∃ out out' σ, (standard.runOn twins twinsRoot).outcome = .done out ∧
      (({ standard with naming := fun _ => "doc", reserved := ["Size2"] } : Embedder).runOn
        twins twinsRoot).outcome = .done out' ∧
      out.definitions.order = ["a", "Size2", "b"] ∧
      out'.definitions.order = ["doc", "Size3", "doc2"] ∧
      out'.definitions.order = out.definitions.order.map σ := by
  obtain ⟨out, h, horder⟩ := Outcome.done_of_check (standard.runOn twins twinsRoot).outcome
    (fun out => out.definitions.order == ["a", "Size2", "b"]) (by decide +kernel)
  obtain ⟨out', h', horder'⟩ := Outcome.done_of_check
    (({ standard with naming := fun _ => "doc", reserved := ["Size2"] } : Embedder).runOn
      twins twinsRoot).outcome
    (fun out => out.definitions.order == ["doc", "Size3", "doc2"]) (by decide +kernel)
  obtain ⟨-, σ, hσ⟩ := run_renamed twins_ordered h h'
  exact ⟨out, out', σ, h, h', by simpa using horder, by simpa using horder', hσ.order⟩

end Embedder

end SchemaBundle
