import UntypedLambda.Environment
import UntypedLambda.Reduction.Step

/-!
# The same traversal of two kinds

A traversal is written once for all kinds of traversal.  Two kinds may carry different
things along, but a relation between them holds for all that they come to if it keeps
to what a traversal is put together from (`Respects`): results, one action after
another, a look at the scope, and an action inside an abstraction.  What can be said of
one kind alone is the case in which the relation does not look at the other.

## Main results

* `Respects.freeNames`, `Respects.step`, `Respects.mapUnbound`: the traversals of a
  term.
* `Respects.expandWithin`, `Respects.expand`: unfolding.
* `respects_counts`: every traversal gives every name the count it had.
-/

namespace UntypedLambda

namespace Walk

variable {m n : Type → Type} [Monad m] [Walk m] [Monad n] [Walk n]

/-- A relation between two kinds of traversal that keeps to what traversals are put
together from. -/
structure Respects (R : (α : Type) → m α → n α → Prop) : Prop where
  pure {α : Type} (a : α) : R α (pure a) (pure a)
  bind {α β : Type} {w : m α} {v : n α} {f : α → m β} {g : α → n β} (h : R α w v)
    (hnext : ∀ a, R β (f a) (g a)) : R β (w >>= f) (v >>= g)
  look : R Scope look look
  within {α : Type} {w : m α} {v : n α} (h : R α w v) (x : Name) :
    R α (within x w) (within x v)

namespace Respects

variable {R : (α : Type) → m α → n α → Prop} (hR : Respects R)

include hR

theorem freeNames (t : Term) : R _ (freeNames t) (freeNames t) := by
  induction t with
  | var x => exact hR.bind hR.look fun _ => hR.pure _
  | abs x b ih => exact hR.within ih x
  | app f a ihf iha => exact hR.bind ihf fun _ => hR.bind iha fun _ => hR.pure _

theorem contract (x : Name) (b a : Term) : R _ (contract x b a) (contract x b a) :=
  hR.bind hR.look fun _ => hR.pure _

/-- Steps are related if what becomes of a redex is. -/
theorem step {contracted : Name → Term → Term → m Term}
    {contracted' : Name → Term → Term → n Term}
    (hcontracted : ∀ x b a, R _ (contracted x b a) (contracted' x b a)) (t : Term) :
    R _ (step contracted t) (step contracted' t) := by
  induction t with
  | var x => exact hR.pure none
  | abs x b ih => exact hR.bind (hR.within ih x) fun _ => hR.pure _
  | app f a ihf iha =>
      by_cases hredex : ∃ x b, f = .abs x b
      · obtain ⟨x, b, rfl⟩ := hredex
        exact hR.bind (hcontracted x b a) fun _ => hR.pure _
      · rw [step_app contracted hredex, step_app contracted' hredex]
        refine hR.bind ihf fun next => ?_
        cases next with
        | some f' => exact hR.pure _
        | none => exact hR.bind iha fun _ => hR.pure _

/-- Replacements are related if those of single names are. -/
theorem mapUnbound {unfold : Name → Option (m Term)} {unfold' : Name → Option (n Term)}
    (hunfold : ∀ x, Option.Rel (R Term) (unfold x) (unfold' x)) (t : Term) :
    R _ (mapUnbound unfold t) (mapUnbound unfold' t) := by
  induction t with
  | var x =>
      refine hR.bind hR.look fun s => ?_
      split
      · exact hR.pure _
      · have hx := hunfold x
        generalize unfold x = found at hx ⊢
        generalize unfold' x = found' at hx ⊢
        cases hx with
        | none => exact hR.pure _
        | some h => exact h
  | abs x b ih => exact hR.bind (hR.within ih x) fun _ => hR.pure _
  | app f a ihf iha => exact hR.bind ihf fun _ => hR.bind iha fun _ => hR.pure _

theorem expandWithin (env : Environment) (depth : Nat) (t : Term) :
    R _ (expandWithin env depth t) (expandWithin env depth t) := by
  induction depth generalizing t with
  | zero => exact hR.pure t
  | succ depth ih =>
      refine hR.mapUnbound (fun x => ?_) t
      cases env.get? x with
      | none => exact .none
      | some d => exact .some (ih d)

theorem expand (env : Environment) (t : Term) : R _ (expand env t) (expand env t) := by
  unfold Walk.expand
  split
  · exact hR.pure t
  · exact hR.bind hR.look fun s => hR.expandWithin env (env.levels s) t

end Respects

end Walk

/-! ## Counts -/

/-- A traversal of the body of an abstraction that gives every name its count
back does so for the abstraction. -/
theorem Scope.count_leave_of_eq {s inner : Scope} {x : Name}
    (h : inner.count = (s.enter x).count) :
    (inner.leave x (s.count x)).count = s.count := by
  funext y
  rw [count_leave, h, count_enter]
  split
  · next hxy => rw [hxy]
  · rfl

/-- A traversal gives every name the count it had, since all that it is put together
from does. -/
theorem Walk.respects_counts : Walk.Respects (m := StateM Scope) (n := StateM Scope)
    fun _ walked _ => ∀ s, (walked s).2.count = s.count where
  pure _ _ := rfl
  bind h hnext s := (hnext _ _).trans (h s)
  look _ := rfl
  within h x s := Scope.count_leave_of_eq (h (s.enter x))

end UntypedLambda
