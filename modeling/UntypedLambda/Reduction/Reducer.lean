import UntypedLambda.Environment
import UntypedLambda.Reduction.Step
import UntypedLambda.Term.Printer

/-!
# Reducing to a normal form

A term without a redex is in normal form. Not every term reaches one, so a reduction is
given a ceiling on the number of contractions, and says afterwards whether the term it
ends with is in normal form or merely the one at which the ceiling was met.

A reducer holds a term on its way: the term, how many contractions led to it, and whether
it is known to be in normal form. It is told what a term contracts to, in any monad
(`stepBy`, `reduceBy`), and contracts the leftmost outermost redex if it is told nothing else
(`step`, `reduce`).
-/

namespace UntypedLambda

/-- A term on its way to a normal form. -/
structure Reducer where
  /-- The term that the contractions so far have led to. -/
  term : Term
  passes : Nat := 0
  /-- Whether the term is known to contain no redex. -/
  normal : Bool := false

namespace Reducer

/-- The number of contractions that are made when no other ceiling is given. -/
def defaultPasses : Nat := 100

section

variable {m : Type → Type} [Monad m] (next : Term → m (Option Term))

/-- Contract one redex, and say whether there was one. What a term contracts to, if it has
a redex, is for `next` to say. -/
@[specialize]
def stepBy (r : Reducer) : m (Bool × Reducer) := do
  match ← next r.term with
  | some t => return (true, { r with term := t, passes := r.passes + 1 })
  | none => return (false, { r with normal := true })

/-- Contract at most `n` redexes as `next` says. If all `n` were there, look whether the last
contraction has left a normal form. -/
@[specialize]
def reduceBy : Nat → Reducer → m Reducer
  | 0, r => do
      let further ← next r.term
      return { r with normal := further.isNone }
  | n + 1, r => do
      match ← stepBy next r with
      | (true, r') => reduceBy n r'
      | (false, r') => return r'

end

/-- Contract one redex, and say whether there was one. -/
def step (r : Reducer) : Bool × Reducer := Id.run (stepBy (fun t => pure t.stepTop) r)

/-- Contract at most `n` redexes. If all `n` were there, look whether the last contraction
has left a normal form. -/
def reduceNat (n : Nat) (r : Reducer) : Reducer :=
  Id.run (reduceBy (fun t => pure t.stepTop) n r)

theorem step_of_some {r : Reducer} {t : Term} (h : r.term.stepTop = some t) :
    r.step = (true, { r with term := t, passes := r.passes + 1 }) := by
  show (match r.term.stepTop with | some t => _ | none => _ : Bool × Reducer) = _
  rw [h]
  rfl

theorem step_of_none {r : Reducer} (h : r.term.stepTop = none) :
    r.step = (false, { r with normal := true }) := by
  show (match r.term.stepTop with | some t => _ | none => _ : Bool × Reducer) = _
  rw [h]
  rfl

theorem reduceNat_zero (r : Reducer) :
    reduceNat 0 r = { r with normal := r.term.stepTop.isNone } := rfl

theorem reduceNat_succ (n : Nat) (r : Reducer) :
    reduceNat (n + 1) r =
      match r.step with
      | (true, r') => reduceNat n r'
      | (false, r') => r' := rfl

/-- Contract at most `limit` redexes, where a limit below zero allows none and no limit
stands for `defaultPasses`. -/
def reduce (r : Reducer) (limit : Option Int) : Reducer :=
  reduceNat ((limit.map Int.toNat).getD defaultPasses) r

/-- The reducer as a line of text. -/
def described (r : Reducer) : String :=
  "NormalOrderReducer(" ++ r.term.described ++ ", passes=" ++ toString r.passes ++
    ", normal=" ++ (if r.normal then "True" else "False") ++ ")"

end Reducer

/-- How many contractions an evaluation may make. -/
inductive Ceiling where
  /-- As many as are made when nothing else is said. -/
  | usual
  | passes (n : Int)
  /-- A number is wanted, but none is given. Then nothing can be evaluated. -/
  | missing
  deriving DecidableEq

/-- A number of contractions, if one is given. -/
def Ceiling.ofOption : Option Int → Ceiling
  | none => .usual
  | some n => .passes n

/-- Reduce a term up to a ceiling, if there is one. -/
def Ceiling.reduce? (ceiling : Ceiling) (t : Term) : Option Reducer :=
  match ceiling with
  | .usual => some (Reducer.reduce { term := t } none)
  | .passes n => some (Reducer.reduce { term := t } (some n))
  | .missing => none

/-- Unfold the definitions of `env` in `t` and reduce what it stands for. -/
def Environment.reduce (env : Environment) (t : Term) (limit : Option Int) : Reducer :=
  Reducer.reduce { term := env.expandTop t } limit

/-- The term that is left when `t`, with the definitions of `env` unfolded, has been
reduced. -/
def Environment.evaluate (env : Environment) (t : Term) (limit : Option Int) : Term :=
  (env.reduce t limit).term

end UntypedLambda
