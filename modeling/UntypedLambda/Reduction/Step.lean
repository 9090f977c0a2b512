import UntypedLambda.Scope
import UntypedLambda.Term.Substitution

/-!
# One step of normal-order reduction

A redex is an application of an abstraction. A step contracts the leftmost outermost redex
of a term and leaves the rest alone; a term without a redex has no step.

Contracting `(λx.b) a` puts `a` for `x` in `b`. If `x` is free in `a`, the abstraction is
first given a parameter that is fresh for the argument, for itself, and for the
abstractions around the redex, so the scope of the redex can change the names of bound
variables in the result, but nothing else.
-/

namespace UntypedLambda

namespace Term

/-- The parameter that `λx.b` is given before it is applied to `a` below abstractions over
the names `around`. -/
def redexParam (x : Name) (b a : Term) (around : List Name) : Name :=
  fresh x (a.freeNames ++ (abs x b).names ++ around)

/-- The contraction of `(λx.b) a` in the scope `s`. -/
def contract (x : Name) (b a : Term) (s : Scope) : Term :=
  if x ∈ a.freeNames then
    let z := redexParam x b a s.names
    subst z a (b.rename x z)
  else subst x a b

end Term

namespace Walk

variable {m : Type → Type} [Monad m] [Walk m]

/-- The contraction of `(λx.b) a` in the scope of the current position. -/
@[specialize]
def contract (x : Name) (b a : Term) : m Term := do
  return Term.contract x b a (← look)

/-- Contract the leftmost outermost redex of a term, if there is one, in a traversal of any
kind. What becomes of a redex `(λx.b) a` is for `contracted` to say. -/
@[specialize]
def step (contracted : Name → Term → Term → m Term) : Term → m (Option Term)
  | .var _ => return none
  | .abs x b => do
      let b' ← within x (step contracted b)
      return b'.map (.abs x)
  | .app (.abs x b) a => do
      let t ← contracted x b a
      return some t
  | .app f a => do
      match ← step contracted f with
      | some f' => return some (.app f' a)
      | none =>
          let a' ← step contracted a
          return a'.map (.app f)

/-- In an application that is no redex the function is tried first. -/
theorem step_app (contracted : Name → Term → Term → m Term) {f : Term}
    (hf : ¬ ∃ x b, f = .abs x b) (a : Term) :
    step contracted (.app f a) = do
      match ← step contracted f with
      | some f' => return some (.app f' a)
      | none =>
          let a' ← step contracted a
          return a'.map (.app f) := by
  cases f with
  | abs x b => exact absurd ⟨x, b, rfl⟩ hf
  | var x => rfl
  | app g c => rfl

end Walk

namespace Term

/-- Contract the leftmost outermost redex of a term in the scope carried as state, if there
is one. -/
def step (t : Term) : StateM Scope (Option Term) := Walk.step Walk.contract t

/-- The step of a term that stands by itself. -/
def stepTop (t : Term) : Option Term := (t.step ∅).1

end Term

end UntypedLambda
