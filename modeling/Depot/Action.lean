/-!
# Actions and results

An action works on a state and may fail. What it did to the state before it failed stays done: the
state after an action is there whether it succeeds or not. A result is what comes of steps that may
fail and have no state.
-/

namespace Depot

/-- A computation on a state that may fail. -/
abbrev Action (σ ε α : Type) := ExceptT ε (StateM σ) α

namespace Action

variable {σ τ ε ε' α : Type}

/-- An action that only looks at the state. -/
def ofView (view : σ → Except ε α) : Action σ ε α := fun s => (view s, s)

/-- An action that makes a new state or fails. -/
def ofStep (step : σ → Except ε σ) : Action σ ε Unit := fun s =>
  match step s with
  | .ok s'   => (.ok (), s')
  | .error e => (.error e, s)

/-- A change that cannot fail. -/
def ofChange (change : σ → σ) : Action σ ε Unit := fun s => (.ok (), change s)

/-- Runs an action on a part of the state. -/
def onPart (part : σ → τ) (put : τ → σ → σ) (x : Action τ ε α) : Action σ ε α := fun s =>
  let (result, t) := x (part s)
  (result, put t s)

/-- Restates the fault of an action. -/
def mapError (f : ε → ε') (x : Action σ ε α) : Action σ ε' α := fun s =>
  let (result, s') := x s
  (result.mapError f, s')

/-! ### What actions do -/

@[simp] theorem ofView_apply (view : σ → Except ε α) (s : σ) : ofView view s = (view s, s) := rfl

@[simp] theorem ofChange_apply (change : σ → σ) (s : σ) :
    (ofChange change : Action σ ε Unit) s = (.ok (), change s) := rfl

@[simp] theorem mapError_apply (f : ε → ε') (x : Action σ ε α) (s : σ) :
    mapError f x s = ((x s).1.mapError f, (x s).2) := rfl

@[simp] theorem onPart_apply (part : σ → τ) (put : τ → σ → σ) (x : Action τ ε α) (s : σ) :
    onPart part put x s = ((x (part s)).1, put (x (part s)).2 s) := rfl

theorem pure_apply (a : α) (s : σ) : (pure a : Action σ ε α) s = (.ok a, s) := rfl

theorem throw_apply (e : ε) (s : σ) : (throw e : Action σ ε α) s = (.error e, s) := rfl

theorem get_apply (s : σ) : (get : Action σ ε σ) s = (.ok s, s) := rfl

theorem modify_apply (f : σ → σ) (s : σ) :
    (modify f : Action σ ε PUnit) s = (.ok ⟨⟩, f s) := rfl

/-- A sequence of actions: the second runs on the state the first leaves, unless the first
fails. -/
theorem bind_apply {β : Type} (x : Action σ ε α) (f : α → Action σ ε β) (s : σ) :
    (x >>= f) s =
      match x s with
      | (.ok a, s')    => f a s'
      | (.error e, s') => (.error e, s') := by
  simp only [bind, ExceptT.bind, ExceptT.mk, StateT.bind]
  rcases x s with ⟨_ | _, _⟩ <;> rfl

/-- A change of the result of an action. -/
theorem map_apply {β : Type} (f : α → β) (x : Action σ ε α) (s : σ) :
    (f <$> x) s = ((x s).1.map f, (x s).2) := by
  simp only [Functor.map, ExceptT.map, ExceptT.mk, StateT.bind, bind]
  rcases x s with ⟨_ | _, _⟩ <;> rfl

/-! ### Actions that succeed -/

variable {β : Type} {s s' : σ} {a : α} {b : β} {x : Action σ ε α}

theorem ofView_eq_ok {view : σ → Except ε α} :
    ofView view s = (.ok a, s') ↔ view s = .ok a ∧ s' = s := by
  rw [ofView_apply, Prod.mk.injEq, eq_comm (a := s)]

theorem mapError_eq_ok {f : ε → ε'} : mapError f x s = (.ok a, s') ↔ x s = (.ok a, s') := by
  rw [mapError_apply]
  rcases x s with ⟨e | a', s₁⟩ <;> constructor <;> intro h <;> cases h <;> rfl

theorem map_eq_ok {f : α → β} :
    (f <$> x) s = (.ok b, s') ↔ ∃ a, x s = (.ok a, s') ∧ f a = b := by
  rw [map_apply]
  constructor
  · intro h
    rcases hx : x s with ⟨e | a, s₁⟩
    · rw [hx] at h
      cases h
    · rw [hx] at h
      cases h
      exact ⟨a, rfl, rfl⟩
  · rintro ⟨a, hx, rfl⟩
    rw [hx]
    rfl

/-- A sequence succeeds if the first action does, and the second from the state that this leaves. -/
theorem bind_eq_ok {f : α → Action σ ε β} :
    (x >>= f) s = (.ok b, s') ↔ ∃ a s₁, x s = (.ok a, s₁) ∧ f a s₁ = (.ok b, s') := by
  rw [bind_apply]
  constructor
  · intro h
    rcases hx : x s with ⟨e | a, s₁⟩
    · rw [hx] at h
      cases h
    · rw [hx] at h
      exact ⟨a, s₁, rfl, h⟩
  · rintro ⟨a, s₁, hx, hf⟩
    rw [hx]
    exact hf

end Action

/-! ### Results -/

namespace Result

variable {ε ε' α β : Type} {x : Except ε α} {a : α} {b : β}

theorem map_eq_ok {f : α → β} : x.map f = .ok b ↔ ∃ a, x = .ok a ∧ f a = b := by
  cases x <;> simp [Except.map]

theorem mapError_eq_ok {f : ε → ε'} : x.mapError f = .ok a ↔ x = .ok a := by
  cases x <;> constructor <;> intro h <;> cases h <;> rfl

theorem bind_eq_ok {f : α → Except ε β} :
    (x >>= f) = .ok b ↔ ∃ a, x = .ok a ∧ f a = .ok b := by
  cases x <;> simp [bind, Except.bind]

@[simp] theorem pure_eq_ok {a' : α} : (pure a : Except ε α) = .ok a' ↔ a' = a := by
  simp [pure, Except.pure, eq_comm]

@[simp] theorem throw_ne_ok {e : ε} : (throw e : Except ε α) ≠ .ok a := nofun

theorem toOption_eq_some : x.toOption = some a ↔ x = .ok a := by
  cases x <;> constructor <;> intro h <;> cases h <;> rfl

/-- What is no success gives nothing. -/
theorem toOption_eq_none (h : ∀ a, x ≠ .ok a) : x.toOption = none := by
  cases x with
  | error e => rfl
  | ok a => exact absurd rfl (h a)

end Result

end Depot
