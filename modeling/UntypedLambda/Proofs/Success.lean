/-!
# Operations that can fail

What an operation that can fail did on the way to its result, read off the
result.  If it succeeded, every step of it succeeded and no check on the way
refused; if it failed, one of them is the first that did.
-/

namespace UntypedLambda

variable {ε ε' α β : Type}

theorem bind_eq_ok {x : Except ε α} {f : α → Except ε β} {b : β} :
    (x >>= f) = .ok b ↔ ∃ a, x = .ok a ∧ f a = .ok b := by
  cases x with
  | error e =>
      show Except.error e = .ok b ↔ _
      simp
  | ok a =>
      show f a = .ok b ↔ _
      simp

theorem map_eq_ok {x : Except ε α} {f : α → β} {b : β} :
    x.map f = .ok b ↔ ∃ a, x = .ok a ∧ f a = b := by
  cases x with
  | error e =>
      show Except.error e = .ok b ↔ _
      simp
  | ok a =>
      show Except.ok (f a) = .ok b ↔ _
      simp

theorem map_map {γ : Type} (x : Except ε α) (f : α → β) (g : β → γ) :
    (x.map f).map g = x.map fun a => g (f a) := by
  cases x <;> rfl

theorem bind_map {γ : Type} (x : Except ε α) (f : α → Except ε β) (g : β → γ) :
    (x >>= f).map g = x >>= fun a => (f a).map g := by
  cases x <;> rfl

theorem mapError_eq_ok {x : Except ε α} {f : ε → ε'} {a : α} :
    x.mapError f = .ok a ↔ x = .ok a := by
  cases x with
  | error e =>
      show Except.error (f e) = .ok a ↔ _
      simp
  | ok b =>
      show Except.ok b = .ok a ↔ _
      simp

theorem pure_eq_ok {a b : α} : (pure a : Except ε α) = .ok b ↔ a = b := by
  show Except.ok a = .ok b ↔ _
  simp

/-- A check that refuses when `c` holds; what would come after the refusal
does not matter. -/
theorem refuse_eq_ok {γ : Type} {c : Prop} [Decidable c] {e : ε}
    {f : γ → Except ε α} {x : Except ε α} {a : α} :
    (if c then throw e >>= f else x) = .ok a ↔ ¬ c ∧ x = .ok a := by
  by_cases hc : c
  · rw [if_pos hc]
    show Except.error e = .ok a ↔ _
    simp [hc]
  · rw [if_neg hc]
    simp [hc]

/-! ## Failure -/

theorem bind_eq_error {x : Except ε α} {f : α → Except ε β} {e : ε} :
    (x >>= f) = .error e ↔ x = .error e ∨ ∃ a, x = .ok a ∧ f a = .error e := by
  cases x with
  | error e' =>
      show Except.error e' = .error e ↔ _
      simp
  | ok a =>
      show f a = .error e ↔ _
      simp

theorem map_eq_error {x : Except ε α} {f : α → β} {e : ε} :
    x.map f = .error e ↔ x = .error e := by
  cases x with
  | error e' =>
      show Except.error e' = .error e ↔ _
      simp
  | ok a =>
      show Except.ok (f a) = .error e ↔ _
      simp

theorem mapError_eq_error {x : Except ε α} {f : ε → ε'} {e : ε'} :
    x.mapError f = .error e ↔ ∃ e₀, x = .error e₀ ∧ f e₀ = e := by
  cases x with
  | error e₀ =>
      show Except.error (f e₀) = .error e ↔ _
      simp
  | ok a =>
      show Except.ok a = .error e ↔ _
      simp

theorem pure_ne_error {a : α} {e : ε} : (pure a : Except ε α) ≠ .error e := by
  intro h
  cases h

/-- A check that refuses when `c` holds is the first to fail, or what comes
after it fails. -/
theorem refuse_eq_error {γ : Type} {c : Prop} [Decidable c] {e e' : ε}
    {f : γ → Except ε α} {x : Except ε α} :
    (if c then throw e >>= f else x) = .error e' ↔
      c ∧ e = e' ∨ ¬ c ∧ x = .error e' := by
  by_cases hc : c
  · rw [if_pos hc]
    show Except.error e = .error e' ↔ _
    simp [hc]
  · rw [if_neg hc]
    simp [hc]

end UntypedLambda
