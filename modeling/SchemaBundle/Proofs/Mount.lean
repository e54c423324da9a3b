/-
Taking definitions out of a document and putting definitions in.

Both follow the mount path through members of objects.  Taking out leaves a document
whose definitions are gone, and hands back their list in key order.  Putting in is a
frame statement: the node at the mount path holds what it held and the additions, and
every place that is neither on the way to that node nor below it is what it was.
-/
import SchemaBundle.Embed.Mount
import SchemaBundle.Proofs.Pointer

namespace SchemaBundle

namespace MountPath

variable {mount : MountPath} {additions : List (String × Json)}

/-! ### The path -/

theorem below?_eq_some {p rest : Pointer} {key : String} :
    mount.below? p = some (key, rest) ↔ p = mount.segments ++ key :: rest := by
  unfold below? Pointer.startsWith
  constructor
  · intro h
    split at h
    · rename_i hprefix
      obtain ⟨t, rfl⟩ := List.isPrefixOf_iff_prefix.mp hprefix
      rw [List.drop_left] at h
      cases t with
      | nil => simp at h
      | cons first t => simpa using h
    · simp at h
  · rintro rfl
    rw [if_pos (List.isPrefixOf_iff_prefix.mpr (List.prefix_append _ _)), List.drop_left]

/-! ### Taking definitions out -/

/-- The members of an object that definitions are taken out of. -/
theorem takeFrom?_nil_ok {key : String} {v rest : Json} {taken : List (String × Json)}
    (h : takeFrom? [] key v = some (taken, rest)) :
    ∃ members, v = .object members ∧ Entries.get? members key = some (.object taken) ∧
      rest = .object (Entries.erase members key) := by
  unfold takeFrom? at h
  split at h
  · rename_i members
    split at h
    · rename_i inner hget
      obtain ⟨rfl, rfl⟩ := Prod.mk.inj (Option.some.inj h)
      exact ⟨members, rfl, hget, rfl⟩
    · simp at h
  · simp at h

theorem takeFrom?_cons_ok {parent key : String} {parents : Pointer} {v rest : Json}
    {taken : List (String × Json)} (h : takeFrom? (parent :: parents) key v = some (taken, rest)) :
    ∃ members child below, v = .object members ∧ Entries.get? members parent = some child ∧
      takeFrom? parents key child = some (taken, below) ∧
      rest = .object (Entries.insert parent below members) := by
  unfold takeFrom? at h
  split at h
  · rename_i members
    split at h
    · rename_i child hget
      obtain ⟨⟨inner, below⟩, htake, heq⟩ := Option.map_eq_some_iff.mp h
      obtain ⟨rfl, rfl⟩ := Prod.mk.inj heq
      exact ⟨members, child, below, rfl, hget, htake, rfl⟩
    · simp at h
  · simp at h

/-- What is left is an object. -/
theorem takeFrom?_object {parents : Pointer} {key : String} {v rest : Json}
    {taken : List (String × Json)} (h : takeFrom? parents key v = some (taken, rest)) :
    ∃ members, rest = .object members := by
  cases parents with
  | nil =>
      obtain ⟨members, _, _, hrest⟩ := takeFrom?_nil_ok h
      exact ⟨_, hrest⟩
  | cons parent parents =>
      obtain ⟨members, child, below, _, _, _, hrest⟩ := takeFrom?_cons_ok h
      exact ⟨_, hrest⟩

/-- What is taken out is the object at the end of the path. -/
theorem takeFrom?_node {parents : Pointer} {key : String} {v rest : Json}
    {taken : List (String × Json)} (h : takeFrom? parents key v = some (taken, rest)) :
    Pointer.resolve? v (parents ++ [key]) = some (.object taken) := by
  induction parents generalizing v rest with
  | nil =>
      obtain ⟨members, rfl, hget, -⟩ := takeFrom?_nil_ok h
      rw [List.nil_append, Pointer.resolve?_object, hget, Option.bind_some, Pointer.resolve?_nil]
  | cons parent parents ih =>
      obtain ⟨members, child, below, rfl, hget, htake, -⟩ := takeFrom?_cons_ok h
      rw [List.cons_append, Pointer.resolve?_object, hget, Option.bind_some]
      exact ih htake

/-- Every other place is still there. -/
theorem takeFrom?_found {parents p : Pointer} {key : String} {v rest : Json}
    {taken : List (String × Json)} (h : takeFrom? parents key v = some (taken, rest))
    (hp : ¬ parents ++ [key] <+: p) (hfound : (Pointer.resolve? v p).isSome) :
    (Pointer.resolve? rest p).isSome := by
  induction parents generalizing v rest p with
  | nil =>
      obtain ⟨members, rfl, hget, rfl⟩ := takeFrom?_nil_ok h
      cases p with
      | nil => rw [Pointer.resolve?_nil]; rfl
      | cons first p =>
          have hne : key ≠ first := by
            rintro rfl
            exact hp (by simp)
          rw [Pointer.resolve?_object] at hfound ⊢
          rw [Entries.get?_erase_ne hne]
          exact hfound
  | cons parent parents ih =>
      obtain ⟨members, child, below, rfl, hget, htake, rfl⟩ := takeFrom?_cons_ok h
      cases p with
      | nil => rw [Pointer.resolve?_nil]; rfl
      | cons first p =>
          rw [Pointer.resolve?_object] at hfound ⊢
          by_cases hfirst : parent = first
          · subst hfirst
            rw [List.cons_append, List.cons_prefix_cons, not_and] at hp
            rw [hget, Option.bind_some] at hfound
            rw [Entries.get?_insert_self, Option.bind_some]
            exact ih htake (hp rfl) hfound
          · rw [Entries.get?_insert_ne hfirst]
            exact hfound

/-- What is taken out keeps the order of the document. -/
private theorem takeFrom?_sorted {parents : Pointer} {key : String} {v : Json}
    {taken : List (String × Json)} {rest : Json} (hv : v.Ordered)
    (h : takeFrom? parents key v = some (taken, rest)) : Entries.Sorted taken := by
  induction parents generalizing v rest with
  | nil =>
      obtain ⟨members, rfl, hget, -⟩ := takeFrom?_nil_ok h
      exact (hv.of_get? hget).sorted
  | cons parent parents ih =>
      obtain ⟨members, child, below, rfl, hget, htake, -⟩ := takeFrom?_cons_ok h
      exact ih (hv.of_get? hget) htake

/-- A document's own definitions stand in key order. -/
theorem takeDefinitions_sorted {document : Json} (h : document.Ordered) :
    Entries.Sorted (mount.takeDefinitions document).1 := by
  unfold takeDefinitions
  cases htake : takeFrom? mount.parents mount.key document with
  | none => exact List.Pairwise.nil
  | some found => exact takeFrom?_sorted h htake

theorem mem_refs_takeFrom? {parents : Pointer} {key raw : String} {v rest : Json}
    {taken : List (String × Json)} (h : takeFrom? parents key v = some (taken, rest)) :
    (raw ∈ rest.refs → raw ∈ v.refs) ∧
      ∀ entry ∈ taken, raw ∈ entry.2.refs → raw ∈ v.refs := by
  induction parents generalizing v rest with
  | nil =>
      obtain ⟨members, rfl, hget, rfl⟩ := takeFrom?_nil_ok h
      constructor
      · rw [Json.refs_object, Json.refs_object, List.mem_flatMap, List.mem_flatMap]
        rintro ⟨entry, hentry, hraw⟩
        exact ⟨entry, Entries.mem_of_mem_erase hentry, hraw⟩
      · intro entry hentry hraw
        refine Json.mem_refs_of_get? hget ?_
        rw [Json.refs_object, List.mem_flatMap]
        exact ⟨entry, hentry, Json.mem_refsAt_of_mem_refs hraw⟩
  | cons parent parents ih =>
      obtain ⟨members, child, below, rfl, hget, htake, rfl⟩ := takeFrom?_cons_ok h
      obtain ⟨hbody, hown⟩ := ih htake
      constructor
      · intro hraw
        rcases Json.mem_refs_insert hraw with hraw | hraw
        · -- what is left of the child is an object, so that it is no reference itself
          obtain ⟨inner, rfl⟩ := takeFrom?_object htake
          rw [Json.refsAt_object] at hraw
          exact Json.mem_refs_of_get? hget (hbody hraw)
        · exact hraw
      · intro entry hentry hraw
        exact Json.mem_refs_of_get? hget (hown entry hentry hraw)

/-- Definitions that stand in a member of the document are that member. -/
theorem takeDefinitions_atRoot (members : List (String × Json)) (key : String) :
    (atRoot key).takeDefinitions (.object members) =
      match Entries.get? members key with
      | some (.object taken) => (taken, .object (Entries.erase members key))
      | _ => ([], .object members) := by
  show (takeFrom? [] key (.object members)).getD ([], .object members) = _
  unfold takeFrom?
  simp only
  cases Entries.get? members key with
  | none => rfl
  | some found => cases found <;> rfl

/-- A document that keeps definitions of its own, so that the node at the mount path is
taken out of it. -/
def Takes (mount : MountPath) (document : Json) : Prop :=
  (takeFrom? mount.parents mount.key document).isSome

theorem mem_refs_takeDefinitions {document : Json} {raw : String} :
    (raw ∈ (mount.takeDefinitions document).2.refs → raw ∈ document.refs) ∧
      ∀ entry ∈ (mount.takeDefinitions document).1, raw ∈ entry.2.refs → raw ∈ document.refs := by
  unfold takeDefinitions
  cases htake : takeFrom? mount.parents mount.key document with
  | none => simp
  | some found => exact mem_refs_takeFrom? htake

/-! ### Putting definitions in -/

/-- Adding entries succeeds only where an object can be reached or made. -/
theorem addAt_cons {segment : String} {rest : Pointer} {v out : Json}
    (h : addAt mount additions (segment :: rest) v = .ok out) :
    ∃ members child, v = .object members ∧
      addAt mount additions rest ((Entries.get? members segment).getD (.object [])) = .ok child ∧
      out = .object (Entries.insert segment child members) := by
  unfold addAt at h
  split at h
  · rename_i members
    split at h
    · rename_i child hchild
      exact ⟨members, child, rfl, hchild, (Except.ok.inj h).symm⟩
    · simp at h
  · simp at h

/-- Below a member, entries are added to what stands there, or to a new object. -/
theorem addAt_object (members : List (String × Json)) (segment : String) (rest : Pointer) :
    addAt mount additions (segment :: rest) (.object members) =
      (addAt mount additions rest ((Entries.get? members segment).getD (.object []))).map
        fun child => .object (Entries.insert segment child members) := by
  rw [addAt]
  cases addAt mount additions rest ((Entries.get? members segment).getD (.object [])) with
  | ok child => rfl
  | error error => rfl

/-- The members of the node that entries are added to; a missing node is empty. -/
def nodeMembers (v : Json) (path : Pointer) : List (String × Json) :=
  match Pointer.resolve? v path with
  | some (.object members) => members
  | _ => []

theorem nodeMembers_cons (members : List (String × Json)) (segment : String)
    (rest : Pointer) : nodeMembers (.object members) (segment :: rest) =
      nodeMembers ((Entries.get? members segment).getD (.object [])) rest := by
  unfold nodeMembers
  rw [Pointer.resolve?_object]
  cases Entries.get? members segment with
  | some child => rfl
  | none => cases rest <;> rfl

/-- Changing references changes the members of a node and nothing else about it. -/
theorem nodeMembers_mapRefs (f : String → String) (v : Json) (path : Pointer) :
    nodeMembers (v.mapRefs f) path =
      (nodeMembers v path).map fun entry => (entry.1, Json.mapRefsAt f entry.1 entry.2) := by
  unfold nodeMembers
  rw [Pointer.resolve?_mapRefs]
  cases Pointer.resolve? v path with
  | none => rfl
  | some u =>
      rw [Option.map_some]
      cases u with
      | object old => rw [Pointer.mapRefsEnd_eq f (Or.inr rfl), Json.mapRefs_object]
      | null | bool _ | number _ | string _ | array _ =>
          -- what was no object has no members afterwards either
          cases hafter : Pointer.mapRefsEnd f path _ with
          | object new =>
              obtain ⟨old, hold⟩ := Pointer.eq_object_of_mapRefsEnd hafter
              simp at hold
          | null | bool _ | number _ | string _ | array _ => rfl

theorem get?_nodeMembers_mapRefs (f : String → String) (v : Json) (path : Pointer)
    (key : String) : Entries.get? (nodeMembers (v.mapRefs f) path) key =
      (Entries.get? (nodeMembers v path) key).map (Json.mapRefsAt f key) := by
  rw [nodeMembers_mapRefs, Pointer.get?_mapRefs]

theorem keys_nodeMembers_mapRefs (f : String → String) (v : Json) (path : Pointer) :
    Entries.keys (nodeMembers (v.mapRefs f) path) = Entries.keys (nodeMembers v path) := by
  rw [nodeMembers_mapRefs, Entries.keys, List.map_map]
  rfl

theorem addAt_node {path : Pointer} {v out : Json} (h : addAt mount additions path v = .ok out) :
    Pointer.resolve? out path =
      some (.object (Entries.insertAll (nodeMembers v path) additions)) := by
  induction path generalizing v out with
  | nil =>
      unfold addAt at h
      split at h
      · rw [Pointer.resolve?_nil, ← Except.ok.inj h]
        rfl
      · simp at h
  | cons segment rest ih =>
      obtain ⟨members, child, rfl, hchild, rfl⟩ := addAt_cons h
      rw [Pointer.resolve?_object, Entries.get?_insert_self, Option.bind_some, ih hchild,
        nodeMembers_cons]

/-- The node stays in key order. -/
theorem addAt_sorted {path : Pointer} {v out : Json} (hv : v.Ordered)
    (h : addAt mount additions path v = .ok out) :
    ∃ members, Pointer.resolve? out path = some (.object members) ∧ Entries.Sorted members := by
  refine ⟨_, addAt_node h, Entries.Sorted.insertAll ?_ _⟩
  unfold nodeMembers
  split
  · rename_i members hnode
    exact (Pointer.ordered_of_resolve? hv hnode).sorted
  · exact List.Pairwise.nil

/-- On the way to the node there are objects only, before and after. -/
theorem addAt_above {path p : Pointer} {v out : Json}
    (h : addAt mount additions path v = .ok out) (hp : p <+: path) :
    (∃ members, Pointer.resolve? out p = some (.object members)) ∧
      ∀ u, Pointer.resolve? v p = some u → ∃ members, u = .object members := by
  induction path generalizing v out p with
  | nil =>
      rw [List.prefix_nil.mp hp]
      refine ⟨⟨_, addAt_node h⟩, fun u hu => ?_⟩
      rw [Pointer.resolve?_nil, Option.some.injEq] at hu
      unfold addAt at h
      split at h
      · exact ⟨_, hu.symm⟩
      · simp at h
  | cons segment rest ih =>
      obtain ⟨members, child, rfl, hchild, rfl⟩ := addAt_cons h
      cases p with
      | nil =>
          refine ⟨⟨_, Pointer.resolve?_nil _⟩, fun u hu => ?_⟩
          rw [Pointer.resolve?_nil, Option.some.injEq] at hu
          exact ⟨_, hu.symm⟩
      | cons first p =>
          obtain ⟨rfl, hbelow⟩ := List.cons_prefix_cons.mp hp
          obtain ⟨hafter, hbefore⟩ := ih hchild hbelow
          rw [Pointer.resolve?_object, Pointer.resolve?_object, Entries.get?_insert_self,
            Option.bind_some]
          refine ⟨hafter, fun u hu => ?_⟩
          obtain ⟨next, hnext, hu⟩ := Option.bind_eq_some_iff.mp hu
          rw [hnext, Option.getD_some] at hbefore
          exact hbefore u hu

/-- Below the node, an addition is found under its key, and anything else is what it was. -/
theorem addAt_below {path p : Pointer} {v out : Json} {key : String}
    (h : addAt mount additions path v = .ok out) (hnd : (Entries.keys additions).Nodup) :
    Pointer.resolve? out (path ++ key :: p) =
      ((Entries.get? additions key).or (Entries.get? (nodeMembers v path) key)).bind
        fun next => Pointer.resolve? next p := by
  rw [Pointer.resolve?_append, addAt_node h, Option.bind_some, Pointer.resolve?_object,
    Entries.get?_insertAll hnd]

/-- **What is neither above nor below the node stays as it is.** -/
theorem addAt_outside {path p : Pointer} {v out : Json}
    (h : addAt mount additions path v = .ok out) (hp : ¬ p <+: path) (hp' : ¬ path <+: p) :
    Pointer.resolve? out p = Pointer.resolve? v p := by
  induction path generalizing v out p with
  | nil => exact absurd List.nil_prefix hp'
  | cons segment rest ih =>
      obtain ⟨members, child, rfl, hchild, rfl⟩ := addAt_cons h
      cases p with
      | nil => exact absurd List.nil_prefix hp
      | cons first p =>
          rw [Pointer.resolve?_object, Pointer.resolve?_object]
          by_cases hfirst : segment = first
          · subst hfirst
            rw [List.cons_prefix_cons, not_and] at hp hp'
            rw [Entries.get?_insert_self, Option.bind_some, ih hchild (hp rfl) (hp' rfl)]
            cases Entries.get? members segment with
            | some next => rfl
            | none =>
                obtain ⟨second, q, rfl⟩ :=
                  List.exists_cons_of_ne_nil fun hnil : p = [] => hp rfl (hnil ▸ List.nil_prefix)
                rfl
          · rw [Entries.get?_insert_ne hfirst]

/-! ### References of what was added -/

theorem mem_refs_insertAll {members additions : List (String × Json)} {raw : String}
    (h : raw ∈ (Json.object (Entries.insertAll members additions)).refs) :
    raw ∈ (Json.object members).refs ∨
      ∃ entry ∈ additions, raw ∈ Json.refsAt entry.1 entry.2 := by
  rw [Json.refs_object, List.mem_flatMap] at h
  obtain ⟨entry, hentry, hraw⟩ := h
  rcases Entries.mem_insertAll hentry with hold | hnew
  · rw [Json.refs_object, List.mem_flatMap]
    exact Or.inl ⟨entry, hold, hraw⟩
  · exact Or.inr ⟨entry, hnew, hraw⟩

/-- The references after adding entries are those that were there and those of the
entries. -/
theorem mem_refs_addAt {path : Pointer} {v out : Json} {raw : String}
    (h : addAt mount additions path v = .ok out) (hraw : raw ∈ out.refs) :
    raw ∈ v.refs ∨ ∃ entry ∈ additions, raw ∈ Json.refsAt entry.1 entry.2 := by
  induction path generalizing v out with
  | nil =>
      unfold addAt at h
      split at h
      · rename_i members
        rw [← Except.ok.inj h] at hraw
        exact mem_refs_insertAll hraw
      · simp at h
  | cons segment rest ih =>
      obtain ⟨members, child, rfl, hchild, rfl⟩ := addAt_cons h
      rcases Json.mem_refs_insert hraw with hraw | hraw
      · obtain ⟨inner, hinner⟩ := (addAt_above hchild List.nil_prefix).1
        rw [Pointer.resolve?_nil, Option.some.injEq] at hinner
        subst hinner
        rw [Json.refsAt_object] at hraw
        refine (ih hchild hraw).imp_left fun hold => ?_
        cases hget : Entries.get? members segment with
        | none => rw [hget] at hold; simp at hold
        | some old =>
            rw [hget, Option.getD_some] at hold
            exact Json.mem_refs_of_get? hget hold
      · exact Or.inl hraw

end MountPath

end SchemaBundle
