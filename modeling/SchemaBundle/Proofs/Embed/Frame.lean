/-
Embedding does not disturb the root.

The root is rewritten twice: its references get new texts, and the definitions are added
at the mount path.  The first changes strings and nothing else; the second touches only
the node and what is made on the way to it.  What could go wrong is the node itself,
where a definition silently replaces whatever has its name.  That never happens, because
every name is handed out by one allocator, which knew the names at the node and the
reserved ones from the start.
-/
import SchemaBundle.Proofs.Embed.Run

namespace SchemaBundle

variable {e : Embedder} {loader : Loader} {kept existing : List String} {H : List Record}
  {c : Context} {root : Json} {out : Embedded} {steps : Nat}

namespace Context

/-! ### The names a document was given -/

/-- The names that a document was given: its own, then the names of the definitions
that were stored for it, in the order of their keys. -/
def given (c : Context) (identity : String) : List String :=
  match c.resource? identity with
  | some resource =>
    resource.name :: (resource.localNames.filter fun entry =>
      (c.hoistedAt entry.1).any fun h => h.owner == identity && h.name == entry.2).map Prod.snd
  | none => []

/-- A definition was stored for a document just when it is on offer as its own. -/
private theorem stored_iff {r : Record} {d : LocalDefinition} (hk : c.Keeps kept H) (hr : r ∈ H)
    (hd : d ∈ r.locals) :
    ((c.hoistedAt d.key).any fun h => h.owner == r.identity && h.name == d.name) = d.fresh := by
  rw [Bool.eq_iff_iff, List.any_eq_true]
  constructor
  · rintro ⟨h, hmem, heq⟩
    obtain ⟨s, hs, δ, hδ, hfresh, hkey, rfl⟩ := hk.mem_hoistedAt.mp hmem
    simp only [LocalDefinition.hoisted, Bool.and_eq_true, beq_iff_eq] at heq
    obtain rfl := hk.eq_of_identity hs hr heq.1
    rw [← hk.fresh s hr δ hδ d hd hkey]
    exact hfresh
  · intro hfresh
    exact ⟨d.hoisted r.identity, hk.mem_hoistedAt.mpr ⟨r, hr, d, hd, hfresh, rfl, rfl⟩,
      by simp [LocalDefinition.hoisted]⟩

theorem Keeps.given_eq {r : Record} (hk : c.Keeps kept H) (hr : r ∈ H) :
    c.given r.identity = r.pieces.map Piece.name := by
  have hfilter : (r.locals.filter fun d =>
      (c.hoistedAt d.key).any fun h => h.owner == r.identity && h.name == d.name) =
        r.locals.filter (·.fresh) := List.filter_congr fun d hd => stored_iff hk hr hd
  unfold given
  rw [hk.resource_of_mem hr]
  show r.name :: List.map Prod.snd (List.filter _ (r.locals.map fun d => (d.key, d.name))) = _
  rw [List.filter_map, List.map_map]
  show r.name :: List.map _ (r.locals.filter fun d =>
    (c.hoistedAt d.key).any fun h => h.owner == r.identity && h.name == d.name) = _
  rw [hfilter, Record.pieces, List.map_cons, List.map_map]
  rfl

/-- Everything stored has a name that was given to a document, document by document. -/
theorem Keeps.given_loaded (hk : c.Keeps kept H) :
    c.loaded.flatMap c.given = (H.flatMap Record.pieces).map Piece.name := by
  rw [hk.loaded, List.flatMap_map, List.map_flatMap]
  exact List.flatMap_congr fun r hr => hk.given_eq hr

end Context

namespace Embedder

open Pointer MountPath

/-! ### The node before the run -/

/-- The root has an object at the mount path, or nothing. -/
theorem existingNames_ok (h : e.existingNames root = .ok existing) :
    existing = Entries.keys (nodeMembers root e.mount.segments) := by
  unfold existingNames at h
  unfold nodeMembers
  cases hnode : resolve? root e.mount.segments with
  | none =>
      rw [hnode] at h
      exact (Except.ok.inj h).symm
  | some v =>
      rw [hnode] at h
      cases v with
      | object members => exact (Except.ok.inj h).symm
      | null | bool _ | number _ | string _ | array _ => simp at h

/-- The new text of a reference of the root. -/
def rootText (e : Embedder) (c : Context) : String → String :=
  e.retarget (e.placeIn c) none

namespace Finished

variable (hfin : e.Finished loader root existing H c out)
include hfin

theorem order_eq : out.definitions.order = (H.flatMap Record.pieces).map Piece.name := by
  rw [hfin.definitions, hfin.holds.keeps.stored.order]

theorem entries_nodup : (Entries.keys c.definitions.entries).Nodup :=
  hfin.holds.keeps.stored.sorted.keys_nodup

theorem mem_order {name : String} :
    name ∈ out.definitions.order ↔ (c.definitions.get? name).isSome := by
  rw [hfin.order_eq]
  exact (hfin.holds.keeps.stored.contains name).symm

/-- No name that was given is reserved, or stands at the node already. -/
theorem not_kept {name : String} (h : name ∈ out.definitions.order) :
    name ∉ e.reserved ∧ name ∉ Entries.keys (nodeMembers root e.mount.segments) := by
  rw [hfin.order_eq] at h
  have happart := hfin.holds.keeps.stored.apart name h
  rw [List.mem_append, not_or] at happart
  rw [← existingNames_ok hfin.present]
  exact happart

theorem added : e.mount.addDefinitions c.definitions.entries (root.mapRefs (e.rootText c)) =
    .ok out.document := by
  obtain ⟨w, hdone, hadd⟩ := hfin.root
  rw [← hadd, hdone.eq, rootText]

/-- **Off the node and the way to it, only texts of references change.** -/
theorem outside {p : Pointer} (habove : ¬ p <+: e.mount.segments)
    (hbelow : ¬ e.mount.segments <+: p) :
    resolve? out.document p = (resolve? root p).map (mapRefsEnd (e.rootText c) p) := by
  rw [addAt_outside hfin.added habove hbelow, resolve?_mapRefs]

/-- On the way to the node there are objects, those of the root and new ones. -/
theorem above {p : Pointer} (h : p <+: e.mount.segments) :
    (∃ members, resolve? out.document p = some (.object members)) ∧
      ∀ u, resolve? root p = some u → ∃ members, u = .object members := by
  obtain ⟨hafter, hbefore⟩ := addAt_above hfin.added h
  refine ⟨hafter, fun u hu => ?_⟩
  have hu' : resolve? (root.mapRefs (e.rootText c)) p = some (mapRefsEnd (e.rootText c) p u) := by
    rw [resolve?_mapRefs, hu, Option.map_some]
  obtain ⟨members, heq⟩ := hbefore _ hu'
  exact eq_object_of_mapRefsEnd heq

/-- Where the node is a member of the root, the output is an object with its members in order, and
has an object there. -/
theorem members_atRoot {key : String} (hmount : e.mount = .atRoot key) (hroot : root.Ordered) :
    ∃ members node, out.document = .object members ∧ Entries.Sorted members ∧
      Entries.get? members key = some (.object node) := by
  have hsegments : e.mount.segments = [key] := by rw [hmount]; rfl
  have hadded := hfin.added
  unfold addDefinitions at hadded
  rw [hsegments] at hadded
  obtain ⟨members, child, hmembers, -, hout⟩ := addAt_cons hadded
  have hordered := hroot.mapRefs (e.rootText c)
  rw [hmembers] at hordered
  obtain ⟨node, hnode⟩ := (hfin.above (List.prefix_refl _)).1
  rw [hsegments, hout, resolve?_object, Entries.get?_insert_self, Option.bind_some,
    resolve?_nil, Option.some.injEq] at hnode
  refine ⟨_, node, hout, hordered.sorted.insert key child, ?_⟩
  rw [Entries.get?_insert_self, hnode]

/-- Below the node, a definition is found under its name. -/
theorem below_new {name : String} {w : Json} (h : c.definitions.get? name = some w)
    (p : Pointer) : resolve? out.document (e.mount.segments ++ name :: p) = resolve? w p := by
  rw [addAt_below hfin.added hfin.entries_nodup]
  rw [show Entries.get? c.definitions.entries name = some w from h, Option.some_or,
    Option.bind_some]

/-- Below the node, what is under no new name is what the root has there. -/
theorem below_old {key : String} (h : key ∉ out.definitions.order) (p : Pointer) :
    resolve? out.document (e.mount.segments ++ key :: p) =
      (resolve? root (e.mount.segments ++ key :: p)).map
        (mapRefsEnd (e.rootText c) (e.mount.segments ++ key :: p)) := by
  have hnone : Entries.get? c.definitions.entries key = none := by
    rw [hfin.mem_order] at h
    exact Option.not_isSome_iff_eq_none.mp h
  rw [addAt_below hfin.added hfin.entries_nodup, hnone, Option.none_or, ← resolve?_mapRefs,
    resolve?_append]
  unfold nodeMembers
  cases hnode : resolve? (root.mapRefs (e.rootText c)) e.mount.segments with
  | none => rfl
  | some v =>
      obtain ⟨members, rfl⟩ :=
        (addAt_above hfin.added (List.prefix_refl _)).2 v hnode
      rw [Option.bind_some, resolve?_object]

/-- The node has the definitions, and under other keys what the root has there. -/
theorem get?_node (key : String) :
    Entries.get? (nodeMembers out.document e.mount.segments) key =
      (c.definitions.get? key).or ((Entries.get? (nodeMembers root e.mount.segments) key).map
        (Json.mapRefsAt (e.rootText c) key)) := by
  have hnode : nodeMembers out.document e.mount.segments =
      Entries.insertAll (nodeMembers (root.mapRefs (e.rootText c)) e.mount.segments)
        c.definitions.entries := by
    rw [nodeMembers, addAt_node hfin.added]
  rw [hnode, Entries.get?_insertAll hfin.entries_nodup, get?_nodeMembers_mapRefs]
  rfl

/-- What stands below the node in the root is under no new name. -/
theorem old_key {key : String} {rest : Pointer} {v : Json}
    (h : resolve? root (e.mount.segments ++ key :: rest) = some v) :
    key ∉ out.definitions.order := by
  rw [resolve?_append] at h
  obtain ⟨node, hnode, h⟩ := Option.bind_eq_some_iff.mp h
  obtain ⟨members, rfl⟩ := (hfin.above (List.prefix_refl _)).2 node hnode
  obtain ⟨next, hnext, -⟩ := Option.bind_eq_some_iff.mp h
  have hkey : key ∈ Entries.keys (nodeMembers root e.mount.segments) := by
    unfold nodeMembers
    rw [hnode]
    exact Entries.mem_keys_of_get? hnext
  exact fun hnew => (hfin.not_kept hnew).2 hkey

/-- What is no object in the root stays where it was. -/
theorem stays {p : Pointer} {v : Json} (h : resolve? root p = some v)
    (hv : ∀ members, v ≠ .object members) :
    resolve? out.document p = some (mapRefsEnd (e.rootText c) p v) := by
  by_cases habove : p <+: e.mount.segments
  · obtain ⟨members, rfl⟩ := (hfin.above habove).2 v h
    exact absurd rfl (hv members)
  · by_cases hbelow : e.mount.segments <+: p
    · obtain ⟨t, rfl⟩ := hbelow
      obtain ⟨key, rest, rfl⟩ := List.exists_cons_of_ne_nil fun hnil : t = [] =>
        habove (by simp [hnil])
      rw [hfin.below_old (hfin.old_key h), h, Option.map_some]
    · rw [hfin.outside habove hbelow, h, Option.map_some]

/-- Every place of the root is still there. -/
theorem still_found {p : Pointer} (h : (resolve? root p).isSome) :
    (resolve? out.document p).isSome := by
  by_cases habove : p <+: e.mount.segments
  · obtain ⟨members, hmembers⟩ := (hfin.above habove).1
    rw [hmembers]
    rfl
  · obtain ⟨v, hv⟩ := Option.isSome_iff_exists.mp h
    by_cases hbelow : e.mount.segments <+: p
    · obtain ⟨t, rfl⟩ := hbelow
      obtain ⟨key, rest, rfl⟩ := List.exists_cons_of_ne_nil fun hnil : t = [] =>
        habove (by simp [hnil])
      rw [hfin.below_old (hfin.old_key hv), hv]
      rfl
    · rw [hfin.outside habove hbelow, hv]
      rfl

/-- A name stands for one document or definition only. -/
theorem given_nodup : (c.loaded.flatMap c.given).Nodup := by
  rw [hfin.holds.keeps.given_loaded]
  exact hfin.holds.keeps.stored.nodup

theorem order_eq_given : out.definitions.order = c.loaded.flatMap c.given := by
  rw [hfin.order_eq, hfin.holds.keeps.given_loaded]

/-- The name of a document is the name of its record. -/
theorem get?_names {identity name : String} :
    Entries.get? out.names identity = some name ↔
      ∃ r ∈ H, r.identity = identity ∧ r.name = name := by
  rw [hfin.names, Context.assignedNames, Entries.get?_mapValues, Option.map_eq_some_iff]
  constructor
  · rintro ⟨resource, hres, hname⟩
    obtain ⟨r, hr, hid, rfl⟩ := (hfin.holds.keeps.resources _ _).mp hres
    exact ⟨r, hr, hid, hname⟩
  · rintro ⟨r, hr, rfl, hname⟩
    exact ⟨r.resource, hfin.holds.keeps.resource_of_mem hr, hname⟩

theorem identity_of_name {i j name : String} (hi : Entries.get? out.names i = some name)
    (hj : Entries.get? out.names j = some name) : i = j := by
  obtain ⟨r, hr, rfl, hrname⟩ := hfin.get?_names.mp hi
  obtain ⟨s, hs, rfl, hsname⟩ := hfin.get?_names.mp hj
  have hmem : ∀ {t : Record}, t ∈ H →
      (⟨t.name, t.identity, t.body⟩ : Piece) ∈ H.flatMap Record.pieces := fun ht =>
    List.mem_flatMap.mpr ⟨_, ht, Record.mem_pieces.mpr (Or.inl rfl)⟩
  have hpiece := List.inj_on_of_nodup_map hfin.holds.keeps.stored.nodup (hmem hr) (hmem hs)
    (hrname.trans hsname.symm)
  exact congrArg Piece.identity hpiece

end Finished

/-! ### The root after the run -/

/-- What a root and the output have in common, when references have new texts and
definitions stand at the mount path. -/
structure Undisturbed (mount : MountPath) (f : String → String) (root : Json)
    (out : Embedded) : Prop where
  /-- Off the node and the way to it there is what was there, references aside. -/
  outside : ∀ p, ¬ p <+: mount.segments → ¬ mount.segments <+: p →
    resolve? out.document p = (resolve? root p).map (mapRefsEnd f p)
  /-- On the way to the node, and there, are objects: those of the root and new ones. -/
  above : ∀ p, p <+: mount.segments →
    (∃ members, resolve? out.document p = some (.object members)) ∧
      ∀ u, resolve? root p = some u → ∃ members, u = .object members
  /-- The node has the old entries, references aside, and beside them the new ones. -/
  node : ∃ members, resolve? out.document mount.segments = some (.object members) ∧
    (Entries.keys members).Perm
      (Entries.keys (nodeMembers root mount.segments) ++ out.definitions.order) ∧
    (∀ key ∈ Entries.keys (nodeMembers root mount.segments), key ∉ out.definitions.order) ∧
    (∀ key v, Entries.get? (nodeMembers root mount.segments) key = some v →
      Entries.get? members key = some (Json.mapRefsAt f key v)) ∧
    ∀ name ∈ out.definitions.order,
      ∃ w, out.definitions.get? name = some w ∧ Entries.get? members name = some w

theorem Finished.undisturbed (hfin : e.Finished loader root existing H c out) :
    Undisturbed e.mount (e.rootText c) root out where
  outside := fun p => hfin.outside
  above := fun p => hfin.above
  node := by
    have hold : ∀ key ∈ Entries.keys (nodeMembers root e.mount.segments),
        key ∉ out.definitions.order := fun key hkey hmem => (hfin.not_kept hmem).2 hkey
    have hget := fun key => Entries.get?_insertAll hfin.entries_nodup
      (nodeMembers (root.mapRefs (e.rootText c)) e.mount.segments) key
    have hnodeKeys := keys_nodeMembers_mapRefs (e.rootText c) root e.mount.segments
    have hkeys : (Entries.keys c.definitions.entries).Perm out.definitions.order := by
      rw [List.perm_ext_iff_of_nodup hfin.entries_nodup
        (hfin.order_eq_given ▸ hfin.given_nodup)]
      intro key
      rw [hfin.mem_order, ← Entries.isSome_get?_iff]
      rfl
    refine ⟨_, addAt_node hfin.added, ?_, hold, ?_, ?_⟩
    · have hnew : ∀ key ∈ Entries.keys c.definitions.entries,
          key ∉ Entries.keys (nodeMembers (root.mapRefs (e.rootText c)) e.mount.segments) := by
        intro key hkey hmem
        exact hold key (hnodeKeys ▸ hmem) (hkeys.mem_iff.mp hkey)
      have hperm := Entries.keys_insertAll_perm hfin.entries_nodup hnew
      rw [hnodeKeys] at hperm
      exact hperm.trans (hkeys.append_left _)
    · intro key v hv
      have hnone : Entries.get? c.definitions.entries key = none := by
        have hnot := hold key (Entries.mem_keys_of_get? hv)
        rw [hfin.mem_order] at hnot
        exact Option.not_isSome_iff_eq_none.mp hnot
      rw [hget, hnone, Option.none_or, get?_nodeMembers_mapRefs, hv, Option.map_some]
    · intro name hname
      obtain ⟨w, hw⟩ := Option.isSome_iff_exists.mp (hfin.mem_order.mp hname)
      refine ⟨w, hfin.definitions ▸ hw, ?_⟩
      rw [hget, show Entries.get? c.definitions.entries name = some w from hw, Option.some_or]

/-- **Embedding never disturbs the root.** Off the mount node only texts of references
change, the node keeps its entries beside the new ones, and the names given to documents
and to their definitions are all different, new at the node, and not reserved. -/
theorem run_undisturbed (h : (e.run loader steps root).outcome = .done out) :
    (∃ f, Undisturbed e.mount f root out) ∧
      ((e.run loader steps root).loaded.flatMap
        (e.endContext loader steps root).given).Nodup ∧
      (∀ name ∈ (e.run loader steps root).loaded.flatMap (e.endContext loader steps root).given,
        name ∉ Entries.keys (nodeMembers root e.mount.segments) ∧ name ∉ e.reserved) ∧
      ∀ i j name, Entries.get? out.names i = some name → Entries.get? out.names j = some name →
        i = j := by
  obtain ⟨hloaded, existing, H, hfin⟩ := finished_of_run h
  rw [hloaded]
  refine ⟨⟨_, hfin.undisturbed⟩, hfin.given_nodup, fun name hname => ?_, fun i j name =>
    hfin.identity_of_name⟩
  rw [← hfin.order_eq_given] at hname
  exact (hfin.not_kept hname).symm

theorem run_undisturbed_twins :
    ∃ out, (standard.runOn twins twinsRoot).outcome = .done out ∧
      ∃ f, Undisturbed (.atRoot "definitions") f twinsRoot out := by
  obtain ⟨out, h⟩ := twins_done
  exact ⟨out, h, (run_undisturbed h).1⟩

end Embedder

end SchemaBundle
