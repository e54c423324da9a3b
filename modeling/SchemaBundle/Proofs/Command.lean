/-
Steps of commands.

A command threads its session through everything it does and stops at the first failure.
A command that has a result has therefore done each of its steps, one after the other,
and one that has failed has done those in front of the one that failed; what follows takes
commands apart into these steps.  Reading changes nothing, so whatever was read before a command
writes anything was read from the files it started with.
-/
import SchemaBundle.Command.Run

namespace SchemaBundle

namespace Command

variable {α β : Type} {s s' : Session}

/-- A step, and then the rest in the session that it has left. -/
theorem bind_apply (x : Command α) (f : α → Command β) (s : Session) :
    (x >>= f) s =
      match x s with
      | (.ok a, s₁) => f a s₁
      | (.error failure, s₁) => (.error failure, s₁) := by
  show ExceptT.bindCont f (x s).1 (x s).2 = _
  obtain ⟨result, s₁⟩ := x s
  cases result <;> rfl

@[simp] theorem bind_eq_ok {x : Command α} {f : α → Command β} {b : β} :
    (x >>= f) s = (.ok b, s') ↔ ∃ a s₁, x s = (.ok a, s₁) ∧ f a s₁ = (.ok b, s') := by
  rw [bind_apply]
  obtain ⟨result, s₁⟩ := x s
  cases result with
  | ok a =>
      constructor
      · intro h
        exact ⟨a, s₁, rfl, h⟩
      · rintro ⟨a, s₂, h, hf⟩
        cases h
        exact hf
  | error failure =>
      constructor
      · intro h
        cases h
      · rintro ⟨a, s₂, h, -⟩
        cases h

/-- A command fails in one of its steps, and what was changed before stays changed. -/
theorem bind_eq_error {x : Command α} {f : α → Command β} {failure : Failure} :
    (x >>= f) s = (.error failure, s') ↔
      x s = (.error failure, s') ∨ ∃ a s₁, x s = (.ok a, s₁) ∧ f a s₁ = (.error failure, s') := by
  rw [bind_apply]
  obtain ⟨result, s₁⟩ := x s
  cases result with
  | ok a =>
      constructor
      · intro h
        exact .inr ⟨a, s₁, rfl, h⟩
      · rintro (h | ⟨a, s₂, h, hf⟩)
        · cases h
        · cases h
          exact hf
  | error failure =>
      constructor
      · intro h
        cases h
        exact .inl rfl
      · rintro (h | ⟨a, s₂, h, -⟩)
        · cases h
          rfl
        · cases h

@[simp] theorem pure_eq_ok {a b : α} : (pure a : Command α) s = (.ok b, s') ↔ a = b ∧ s = s' := by
  show ((Except.ok a : Except Failure α), s) = (.ok b, s') ↔ _
  simp

@[simp] theorem throw_ne_ok {failure : Failure} {a : α} :
    ¬ (throw failure : Command α) s = (.ok a, s') := by
  intro h
  cases h

@[simp] theorem files_eq_ok {fs : FileSystem} :
    files s = (.ok fs, s') ↔ fs = s.files ∧ s = s' := by
  show ((Except.ok s.files : Except Failure FileSystem), s) = (.ok fs, s') ↔ _
  simp [eq_comm]

@[simp] theorem ofDocument_eq_ok {result : Except Error α} {a : α} :
    ofDocument result s = (.ok a, s') ↔ result = .ok a ∧ s = s' := by
  cases result with
  | ok value => simp [ofDocument]
  | error error => simp [ofDocument]

@[simp] theorem print_ne_error {text : String} {failure : Failure} :
    ¬ print text s = (.error failure, s') := by
  intro h
  cases h

@[simp] theorem pure_ne_error {a : α} {failure : Failure} :
    ¬ (pure a : Command α) s = (.error failure, s') := by
  intro h
  cases h

@[simp] theorem ofDocument_eq_error {result : Except Error α} {failure : Failure} :
    ofDocument result s = (.error failure, s') ↔
      ∃ error, result = .error error ∧ failure = .document error ∧ s' = s := by
  cases result with
  | ok value => exact iff_of_false pure_ne_error (by simp)
  | error error =>
      show ((Except.error (.document error) : Except Failure α), s) = _ ↔ _
      simp [eq_comm]

@[simp] theorem ofResult_eq_ok {result : Except Failure α} {a : α} :
    ofResult result s = (.ok a, s') ↔ result = .ok a ∧ s = s' := by
  cases result with
  | ok value => simp [ofResult]
  | error error => simp [ofResult]

@[simp] theorem ofOutcome_eq_ok {outcome : Outcome α} {a : α} :
    ofOutcome outcome s = (.ok a, s') ↔ outcome = .done a ∧ s = s' := by
  cases outcome with
  | done value => simp [ofOutcome]
  | failed error => simp [ofOutcome]
  | unfinished => simp [ofOutcome]

@[simp] theorem print_eq_ok {text : String} {u : Unit} :
    print text s = (.ok u, s') ↔ { s with printed := s.printed ++ text } = s' := by
  show ((Except.ok () : Except Failure Unit), { s with printed := s.printed ++ text }) = _ ↔ _
  simp

theorem needFile_ok {path : String} {u : Unit} (h : needFile path s = (.ok u, s')) : s' = s := by
  unfold needFile at h
  simp only [bind_eq_ok, files_eq_ok] at h
  obtain ⟨fs, s₁, ⟨rfl, rfl⟩, h⟩ := h
  split at h
  · exact absurd h throw_ne_ok
  · exact (pure_eq_ok.mp h).2.symm

theorem readDocument_ok {path : String} {document : Json}
    (h : readDocument path s = (.ok document, s')) :
    s' = s ∧ s.files.document path = .ok document := by
  unfold readDocument at h
  simp only [bind_eq_ok, files_eq_ok, ofDocument_eq_ok] at h
  obtain ⟨u, s₁, hneed, fs, s₂, ⟨rfl, rfl⟩, hread, rfl⟩ := h
  obtain rfl := needFile_ok hneed
  exact ⟨rfl, hread⟩

/-! ### Results that can be computed -/

/-- A command that can be run and checked has a result. -/
theorem ok_of_check {α : Type} (x : Command α) (s : Session) (check : α → Session → Bool)
    (h : (match x s with | (.ok a, s') => check a s' | _ => false) = true) :
    ∃ a s', x s = (.ok a, s') ∧ check a s' = true := by
  cases hx : x s with
  | mk result s' =>
      rw [hx] at h
      cases result with
      | ok a => exact ⟨a, s', rfl, h⟩
      | error failure => simp at h

/-- Whether there is a document and it passes a check. -/
def checked {ε : Type} (check : Json → Bool) : Except ε Json → Bool
  | .ok document => check document
  | .error _ => false

theorem ok_of_checked {ε : Type} {check : Json → Bool} {result : Except ε Json}
    (h : checked check result = true) :
    ∃ document, result = .ok document ∧ check document = true := by
  cases result with
  | ok document => exact ⟨document, rfl, h⟩
  | error error => exact absurd h Bool.false_ne_true

/-- Whether a text stands at a place. -/
def hasText (document : Json) (p : Pointer) (text : String) : Bool :=
  (Pointer.resolve? document p).bind Json.string? == some text

theorem resolve?_of_hasText {document : Json} {p : Pointer} {text : String}
    (h : hasText document p text = true) :
    Pointer.resolve? document p = some (.string text) := by
  obtain ⟨v, hv, hstring⟩ := Option.bind_eq_some_iff.mp (beq_iff_eq.mp h)
  cases v with
  | string found =>
      rw [hv]
      exact congrArg (some ∘ Json.string) (Option.some.inj hstring)
  | null | bool _ | number _ | array _ | object _ => simp [Json.string?] at hstring

end Command

end SchemaBundle
