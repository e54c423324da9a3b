/-
A finite map of documents is embedded in finitely many steps.

The worklist grows while it is consumed, and the identities that references resolve to are
computed texts without any bound of their own.  What bounds the run is the map.  A document
is stored once, so the pieces that are ever stored are at most one for each entry of the map
and one for each definition in it, and `stepBound` counts these.  Every step takes one piece
off the worklist for good, so a run that has used up that many steps has none left to take.

More steps than are needed make no difference.  That is what lets the bound stand for the loop
itself: the run with `stepBound` steps is the run with any larger number of them.
-/
import Mathlib.Algebra.GroupWithZero.Nat
import SchemaBundle.Proofs.Embed.Run

namespace SchemaBundle

variable {e : Embedder} {loader : Loader} {root : Json} {kept : List String} {H : List Record}
  {documents : List (String × Json)} {steps : Nat} {c c' : Context}

namespace Embedder

/-! ### What can be stored -/

theorem stepBound_eq (e : Embedder) (documents : List (String × Json)) :
    e.stepBound documents =
      (documents.map fun entry => 1 + (e.mount.takeDefinitions entry.2).1.length).sum := by
  induction documents with
  | nil => rfl
  | cons entry rest ih =>
      rw [List.map_cons, List.sum_cons, ← ih]
      rfl

theorem length_pieces_le (r : Record) : r.pieces.length ≤ 1 + r.own.length := by
  have hfresh := List.length_filter_le (fun d : LocalDefinition => d.fresh) r.locals
  simp only [Record.pieces, Record.own, List.length_cons, List.length_map]
  omega

/-- The entry of the map that a record was made from. -/
theorem Holds.entry (h : e.Holds (Loader.ofDocuments documents) kept H c) {r : Record}
    (hr : r ∈ H) : ∃ document, (r.identity, document) ∈ documents ∧
      r.pieces.length ≤ 1 + (e.mount.takeDefinitions document).1.length := by
  obtain ⟨document, hfetch, htake⟩ := h.documents r hr
  refine ⟨document, Loader.mem_of_ofDocuments (Loader.of_fetch hfetch), ?_⟩
  rw [htake]
  exact length_pieces_le r

/-- Numbers that belong to different entries are together no more than the entries allow. -/
private theorem sum_le_stepBound (e : Embedder) (documents : List (String × Json))
    (counts : List (String × Nat)) (hnd : (counts.map Prod.fst).Nodup)
    (h : ∀ count ∈ counts, ∃ document, (count.1, document) ∈ documents ∧
      count.2 ≤ 1 + (e.mount.takeDefinitions document).1.length) :
    (counts.map Prod.snd).sum ≤ e.stepBound documents := by
  rw [stepBound_eq]
  induction counts generalizing documents with
  | nil => exact Nat.zero_le _
  | cons count rest ih =>
      obtain ⟨hcount, hrest⟩ := List.nodup_cons.mp hnd
      obtain ⟨document, hmem, hle⟩ := h count List.mem_cons_self
      obtain ⟨front, back, rfl⟩ := List.append_of_mem hmem
      -- the other numbers belong to other entries, so that this one is not needed again
      have hentries : ∀ other ∈ rest, ∃ document, (other.1, document) ∈ front ++ back ∧
          other.2 ≤ 1 + (e.mount.takeDefinitions document).1.length := by
        intro other hother
        obtain ⟨found, hfound, hle'⟩ := h other (List.mem_cons_of_mem _ hother)
        have hne : other.1 ≠ count.1 := fun heq => hcount (heq ▸ List.mem_map_of_mem hother)
        refine ⟨found, ?_, hle'⟩
        rw [List.mem_append, List.mem_cons] at hfound
        rw [List.mem_append]
        rcases hfound with hfront | heq | hback
        · exact Or.inl hfront
        · exact absurd (Prod.mk.inj heq).1 hne
        · exact Or.inr hback
      have hothers := ih (front ++ back) hrest hentries
      simp only [List.map_append, List.map_cons, List.sum_append, List.sum_cons] at hothers ⊢
      omega

/-- **Whatever a run has stored, the bound covers it.** -/
theorem Holds.length_pieces_le (h : e.Holds (Loader.ofDocuments documents) kept H c) :
    (H.flatMap Record.pieces).length ≤ e.stepBound documents := by
  have hsum := sum_le_stepBound e documents (H.map fun r => (r.identity, r.pieces.length))
    (by rw [List.map_map]; exact h.keeps.unique)
    (List.forall_mem_map.mpr fun r hr => h.entry hr)
  rw [List.map_map] at hsum
  rw [List.length_flatMap]
  exact hsum

/-- The bound covers a document that is still to be stored, and its definitions, as well. -/
theorem Holds.length_pieces_add_le {i : String} {document : Json}
    (h : e.Holds (Loader.ofDocuments documents) kept H c) (hnone : c.resource? i = none)
    (hdocument : Loader.ofDocuments documents i = .ok document) :
    (H.flatMap Record.pieces).length + (1 + (e.mount.takeDefinitions document).1.length) ≤
      e.stepBound documents := by
  have hnew : i ∉ H.map Record.identity := by
    rw [← h.keeps.isSome_resource?, hnone]
    exact Bool.false_ne_true
  have hsum := sum_le_stepBound e documents
    ((i, 1 + (e.mount.takeDefinitions document).1.length) ::
      H.map fun r => (r.identity, r.pieces.length))
    (by rw [List.map_cons, List.map_map]; exact List.nodup_cons.mpr ⟨hnew, h.keeps.unique⟩)
    (List.forall_mem_cons.mpr ⟨⟨document, Loader.mem_of_ofDocuments hdocument, Nat.le_refl _⟩,
      List.forall_mem_map.mpr fun r hr => h.entry hr⟩)
  rw [List.map_cons, List.sum_cons, List.map_map, Nat.add_comm] at hsum
  rw [List.length_flatMap]
  exact hsum

/-! ### Running out of steps -/

variable {done waiting : List Piece}

/-- A run that is cut short has taken a piece off the worklist with every step, and one
still waits. -/
theorem Progress.drain_short (h : e.Progress loader root kept H done [] waiting c)
    (hrun : e.drain loader steps c = .ok false c') :
    ∃ H' done' waiting', e.Progress loader root kept H' done' [] waiting' c' ∧
      done'.length = done.length + steps ∧ waiting' ≠ [] := by
  induction steps generalizing H done waiting c with
  | zero =>
      unfold Embedder.drain at hrun
      simp only [Embedding.bind_eq_ok, Embedding.get_eq_ok, Embedding.pure_eq_ok] at hrun
      obtain ⟨a, c₀, ⟨rfl, rfl⟩, hempty, rfl⟩ := hrun
      refine ⟨H, done, waiting, h, rfl, ?_⟩
      rintro rfl
      rw [h.worklist] at hempty
      simp at hempty
  | succ steps ih =>
      unfold Embedder.drain at hrun
      obtain ⟨more, c₁, hstep, hrest⟩ := Embedding.bind_eq_ok.mp hrun
      rcases h.step hstep with ⟨-, rfl, -⟩ | ⟨p, rest, H₁, -, rfl, h₁⟩
      · rw [if_neg Bool.false_ne_true] at hrest
        have hthrough := (Embedding.pure_eq_ok.mp hrest).1
        simp at hthrough
      · rw [if_pos rfl] at hrest
        obtain ⟨H', done', waiting', h', hlength, hwaiting⟩ := ih h₁ hrest
        refine ⟨H', done', waiting', h', ?_, hwaiting⟩
        rw [hlength, List.length_append, List.length_singleton]
        omega

/-- With as many steps as the bound, a run is not cut short. -/
theorem Progress.drain_through (hsteps : e.stepBound documents ≤ steps)
    (h : e.Progress (Loader.ofDocuments documents) root kept H done [] waiting c) :
    ∀ c', e.drain (Loader.ofDocuments documents) steps c ≠ .ok false c' := by
  intro c' hrun
  obtain ⟨H', done', waiting', h', hlength, hwaiting⟩ := h.drain_short hrun
  have hbound := h'.holds.length_pieces_le
  have hpos := List.length_pos_of_ne_nil hwaiting
  rw [h'.pieces, List.length_append, List.length_append, List.length_nil] at hbound
  omega

/-! ### More steps than are needed -/

theorem drain_succ : e.drain loader (steps + 1) c =
    match e.step loader c with
    | .ok true c₁ => e.drain loader steps c₁
    | .ok false c₁ => .ok true c₁
    | .error error c₁ => .error error c₁ := by
  rw [drain]
  show EStateM.bind (e.step loader) _ c = _
  unfold EStateM.bind
  cases e.step loader c with
  | error error c₁ => rfl
  | ok more c₁ => cases more <;> rfl

theorem step_of_empty (h : c.worklist = []) : e.step loader c = .ok false c := by
  unfold step
  refine Embedding.bind_eq_ok.mpr ⟨c, c, Embedding.get_eq_ok.mpr ⟨rfl, rfl⟩, ?_⟩
  rw [h]
  rfl

/-- A run that is not cut short is the same with more steps. -/
theorem drain_more (h : ∀ c', e.drain loader steps c ≠ .ok false c') (extra : Nat) :
    e.drain loader (steps + extra) c = e.drain loader steps c := by
  induction steps generalizing c with
  | zero =>
      have hzero : e.drain loader 0 c = .ok c.worklist.isEmpty c := rfl
      have hempty : c.worklist = [] := by
        by_contra hne
        refine h c ?_
        rw [hzero, List.isEmpty_eq_false_iff.mpr hne]
      rw [hzero, hempty]
      cases extra with
      | zero =>
          rw [Nat.add_zero, hzero, hempty]
      | succ extra =>
          rw [Nat.zero_add, drain_succ, step_of_empty hempty]
          rfl
  | succ steps ih =>
      rw [drain_succ] at h
      rw [Nat.add_right_comm, drain_succ, drain_succ]
      cases hstep : e.step loader c with
      | error error c₁ => rfl
      | ok more c₁ =>
          rw [hstep] at h
          cases more with
          | true => exact ih h
          | false => rfl

/-! ### Runs end -/

/-- Redirecting a root and all that it leads to is not cut short, and more steps change
nothing. -/
theorem traverse_ends (e : Embedder) (documents : List (String × Json)) (root : Json)
    (existing : List String) (extra : Nat) :
    (∀ c', e.traverse (Loader.ofDocuments documents) (e.stepBound documents) root
      (Context.start e.maxSuffix (e.reserved ++ existing)) ≠ .ok none c') ∧
    e.traverse (Loader.ofDocuments documents) (e.stepBound documents + extra) root
        (Context.start e.maxSuffix (e.reserved ++ existing)) =
      e.traverse (Loader.ofDocuments documents) (e.stepBound documents) root
        (Context.start e.maxSuffix (e.reserved ++ existing)) := by
  unfold traverse
  show (∀ c', EStateM.bind _ _ _ ≠ _) ∧ EStateM.bind _ _ _ = EStateM.bind _ _ _
  unfold EStateM.bind
  cases hredirect : e.redirect (Loader.ofDocuments documents) none root
      (Context.start e.maxSuffix (e.reserved ++ existing)) with
  | error error c₁ => exact ⟨by simp, rfl⟩
  | ok w c₁ =>
      obtain ⟨H, h, -⟩ := (e.progress_start _ root existing).redirect
        (fun raw hraw url hnames => Demanded.root hraw hnames) hredirect
      have hthrough := h.drain_through (Nat.le_refl _)
      show (∀ c', EStateM.bind _ _ _ ≠ _) ∧ EStateM.bind _ _ _ = EStateM.bind _ _ _
      unfold EStateM.bind
      rw [drain_more hthrough]
      refine ⟨fun c' => ?_, rfl⟩
      cases hdrain : e.drain (Loader.ofDocuments documents) (e.stepBound documents) c₁ with
      | error error c₂ => simp
      | ok through c₂ =>
          cases through with
          | false => exact absurd hdrain (hthrough c₂)
          | true => exact fun hnone => by cases hnone

/-- **Embedding a finite map of documents ends**, however they refer to each other: with
`stepBound` steps there is a result or an error, and it is the same with any larger number. -/
theorem run_ends (e : Embedder) (documents : List (String × Json)) (root : Json) (extra : Nat) :
    (e.runOn documents root).outcome ≠ .unfinished ∧
      e.run (Loader.ofDocuments documents) (e.stepBound documents + extra) root =
        e.runOn documents root := by
  unfold runOn run
  split
  · exact ⟨by simp, rfl⟩
  · cases e.existingNames root with
    | error error => exact ⟨by simp, rfl⟩
    | ok existing =>
        obtain ⟨hended, hsame⟩ := e.traverse_ends documents root existing extra
        simp only
        rw [hsame]
        refine ⟨?_, rfl⟩
        split
        · rename_i w c _
          cases e.finish c w <;> simp [Outcome.ofExcept]
        · rename_i c hnone
          exact absurd hnone (hended c)
        · simp

/-- The twins refer to each other in a circle. -/
theorem run_ends_twins :
    ∃ out, (standard.run (Loader.ofDocuments twins) (standard.stepBound twins + 1000)
      twinsRoot).outcome = .done out := by
  rw [(run_ends standard twins twinsRoot 1000).2]
  exact twins_done

end Embedder

end SchemaBundle
