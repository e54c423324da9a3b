/-
What names were given for.

A document is named after what is proposed for it, and a definition of its own after its
key: the name is that one, or that one with a number behind it.  Only the allocator hands
out names, so it is enough to look at the places where it is asked.  A definition that is
shared has the name of one that was found under the same key, so the same is true of it.

A number ends in a digit.  So a name that does not end in one was given only where that
very name was asked for, and a place ends in such a name only if it did before, or if it is
that of a whole document.
-/
import SchemaBundle.Proofs.Embed.Loading

namespace SchemaBundle

open Naming (Variant)

variable {e : Embedder} {kept : List String} {H : List Record} {c : Context} {r : Record}
  {d : LocalDefinition}

/-- Documents are named after what is proposed for them, definitions after their keys. -/
structure Context.NamedAfter (naming : Naming) (c : Context) : Prop where
  documents : ∀ i resource, c.resource? i = some resource → Variant (naming i) resource.name
  definitions : ∀ key, ∀ h ∈ c.hoistedAt key, Variant key h.name

theorem Context.namedAfter_start (naming : Naming) (maxSuffix : Nat) (kept : List String) :
    (Context.start maxSuffix kept).NamedAfter naming where
  documents := by
    intro i resource h
    replace h : Entries.get? [] i = some resource := h
    simp at h
  definitions := fun key h hmem => absurd hmem List.not_mem_nil

namespace Embedder

/-- Every name is handed out for the one that was asked for. -/
theorem preserves_namedAfter (e : Embedder) :
    e.Preserves (Context.NamedAfter e.naming) where
  contents := fun c worklist definitions hc => ⟨hc.documents, hc.definitions⟩
  document := by
    intro identity c name c₁ hc hunknown hreserve
    obtain ⟨allocator, halloc, rfl⟩ := Context.allocate_of_reserveResource hreserve
    refine ⟨fun i resource h => ?_, hc.definitions⟩
    replace h : Entries.get? (Entries.insert identity ⟨name, []⟩ c.resources) i =
      some resource := h
    rw [Entries.get?_insert] at h
    split at h
    · rename_i heq
      rw [← heq, ← Option.some.inj h]
      exact NameAllocator.variant_of_allocate halloc
    · exact hc.documents i resource h
  definition := by
    intro identity key content c name allocator hc halloc
    refine ⟨hc.documents, fun other h hmem => ?_⟩
    rw [Context.hoistedAt_offer] at hmem
    rcases List.mem_append.mp hmem with hold | hnew
    · exact hc.definitions other h hold
    · split at hnew
      · rename_i heq
        rw [List.mem_singleton.mp hnew, ← heq]
        exact NameAllocator.variant_of_allocate halloc
      · exact absurd hnew List.not_mem_nil
  definitions := by
    intro identity resource localNames c hc hres
    refine ⟨fun i found h => ?_, hc.definitions⟩
    replace h : Entries.get? (Entries.insert identity { resource with localNames } c.resources) i =
      some found := h
    rw [Entries.get?_insert] at h
    split at h
    · rename_i heq
      rw [← heq, ← Option.some.inj h]
      exact hc.documents identity resource hres
    · exact hc.documents i found h

/-- **In the end every name is one that was asked for**, or such a one with a number. -/
theorem namedAfter_endContext (e : Embedder) (loader : Loader) (steps : Nat) (root : Json) :
    (e.endContext loader steps root).NamedAfter e.naming :=
  e.preserves_namedAfter.endContext loader steps root
    (Context.namedAfter_start e.naming e.maxSuffix)

end Embedder

section

variable (hk : c.Keeps kept H) (hnamed : c.NamedAfter e.naming)
include hk hnamed

theorem Context.NamedAfter.document (hr : r ∈ H) : Variant (e.naming r.identity) r.name :=
  hnamed.documents _ _ (hk.resource_of_mem hr)

/-- Definitions that are shared were found under the same key. -/
theorem Context.NamedAfter.own (hs : e.Sound H) (hr : r ∈ H) (hd : d ∈ r.locals) :
    Variant d.key d.name := by
  obtain ⟨s, hs', δ, hδ, hfresh, hkey, hname, -⟩ := hs.origin r hr d hd
  rw [← hkey, ← hname]
  exact hnamed.definitions δ.key (δ.hoisted s.identity)
    (hk.mem_hoistedAt.mpr ⟨s, hs', δ, hδ, hfresh, rfl, rfl⟩)

/-- **A place of a document is below one of its names.** The place ends in a word that no
number can end in only if it did in the document, or if it is that of the whole document and
the word was proposed for it. -/
theorem Context.NamedAfter.exists_place (hs : e.Sound H) (hr : r ∈ H) {word : String}
    (hword : ∀ base, Variant base word → base = word) (p : Pointer) :
    ∃ name rest, e.place r.resource p = e.mount.segments ++ name :: rest ∧
      ((name :: rest).getLast? = some word →
        p.getLast? = some word ∨ p = [] ∧ e.naming r.identity = word) := by
  by_cases h : ∃ d ∈ r.locals, ∃ rest, p = e.mount.segments ++ d.key :: rest
  · obtain ⟨d, hd, rest, rfl⟩ := h
    refine ⟨d.name, rest, Embedder.place_own (hs.distinct r hr) hd rest, fun hlast => Or.inl ?_⟩
    rw [List.getLast?_append_of_ne_nil _ (List.cons_ne_nil _ _)]
    cases rest with
    | nil =>
        obtain rfl : d.name = word := Option.some.inj hlast
        exact congrArg some (hword _ (hnamed.own hk hs hr hd))
    | cons next rest => exact hlast
  · refine ⟨r.name, p, Embedder.place_body fun d hd rest heq => h ⟨d, hd, rest, heq⟩, ?_⟩
    intro hlast
    cases p with
    | nil =>
        obtain rfl : r.name = word := Option.some.inj hlast
        exact Or.inr ⟨rfl, hword _ (hnamed.document hk hr)⟩
    | cons next rest => exact Or.inl hlast

end

end SchemaBundle
