import UntypedLambda.Proofs.Reduction.Completeness

/-!
# Step by step in a scope

Where the terms that reduction goes through are known, they can be followed one by
one.  A step depends on the scope that it is made in, for the names that it
invents, so a trace belongs to a scope (`StepsIn`).  A trace of the body of an
abstraction is made in the scope inside, and is one of the abstraction; a trace of
an argument is one of the application if the function is a name, since there is
nothing to contract before it.

A reducer follows the trace of a term by itself and stops where this ends in a
normal form, if its ceiling lets it come so far.

## Main results

* `StepsIn.trans`, `StepsIn.abs`, `StepsIn.arg`: how traces are put together.
* `reduce_of_stepsIn`: a reducer follows a trace to its end.
-/

namespace UntypedLambda

namespace Term

/-- So many steps in a scope lead from one term to another. -/
inductive StepsIn (s : Scope) : Nat → Term → Term → Prop
  | refl (t : Term) : StepsIn s 0 t t
  | head {n : Nat} {t t' u : Term} (hstep : (t.step s).1 = some t')
      (hrest : StepsIn s n t' u) : StepsIn s (n + 1) t u

variable {s : Scope} {m n : Nat} {t u v : Term}

theorem StepsIn.single (hstep : (t.step s).1 = some u) : StepsIn s 1 t u :=
  .head hstep (.refl u)

theorem StepsIn.trans (h : StepsIn s m t u) (h' : StepsIn s n u v) :
    StepsIn s (m + n) t v := by
  induction h with
  | refl t =>
      rw [Nat.zero_add]
      exact h'
  | head hstep _ ih =>
      rw [Nat.succ_add]
      exact .head hstep (ih h')

/-- A trace of the body is one of the abstraction. -/
theorem StepsIn.abs {x : Name} {b c : Term} (h : StepsIn (s.enter x) n b c) :
    StepsIn s n (abs x b) (abs x c) := by
  induction h with
  | refl b => exact .refl _
  | head hstep _ ih =>
      refine .head ?_ ih
      rw [step_abs, hstep]
      rfl

theorem step_var_app (x : Name) (a : Term) (s : Scope) :
    ((app (var x) a).step s).1 = (a.step s).1.map (app (var x)) :=
  step_app (by simp) a s

/-- A trace of the argument is one of the application of a name. -/
theorem StepsIn.arg (x : Name) {a c : Term} (h : StepsIn s n a c) :
    StepsIn s n (app (var x) a) (app (var x) c) := by
  induction h with
  | refl a => exact .refl _
  | head hstep _ ih =>
      refine .head ?_ ih
      rw [step_var_app, hstep]
      rfl

/-- The contraction of a redex is a trace. -/
theorem StepsIn.redex (x : Name) (b a : Term) :
    StepsIn s 1 (app (Term.abs x b) a) (contract x b a s) :=
  .single (step_redex x b a s)

/-- A redex that is applied is contracted first. -/
theorem StepsIn.redex_fn (x : Name) (b a c : Term) :
    StepsIn s 1 (app (app (Term.abs x b) a) c) (app (contract x b a s) c) := by
  refine .single ?_
  rw [step_app (by simp), step_redex]

end Term

open Term (StepsIn)

/-- A reducer follows a trace to its end, and finds out that it is there. -/
theorem Reducer.reduceNat_of_stepsIn {k n : Nat} {t u : Term}
    (h : StepsIn ∅ k t u) (hu : u.stepTop = none) (hn : k ≤ n) {r : Reducer}
    (hr : r.term = t) : reduceNat n r = ⟨u, r.passes + k, true⟩ := by
  induction h generalizing n r with
  | refl t =>
      have hnormal := (Term.normal_nameless_iff t).2 hu
      rw [← hr] at hnormal
      rw [reduceNat_of_normal hnormal, hr, Nat.add_zero]
  | @head k t t' u hstep _ ih =>
      obtain ⟨n, rfl⟩ := Nat.exists_eq_add_of_le' (Nat.le_of_add_left_le hn)
      have hcount : r.passes + 1 + k = r.passes + (k + 1) := by omega
      have hnext : r.term.stepTop = some t' := by
        rw [hr]
        exact hstep
      rw [reduceNat_succ, step_of_some hnext]
      dsimp only
      rw [ih hu (by omega) rfl, hcount]

/-- **A trace to a normal form is what evaluation comes to**, under any limit that
lets it make that many steps. -/
theorem Environment.reduce_of_stepsIn {k : Nat} {t u : Term}
    (h : StepsIn ∅ k t u) (hu : u.stepTop = none) {limit : Option Int}
    (hlimit : k ≤ limit.getD Reducer.defaultPasses) :
    Environment.reduce ∅ t limit = ⟨u, k, true⟩ := by
  have hallowed : k ≤ (limit.map Int.toNat).getD Reducer.defaultPasses := by
    cases limit with
    | none => exact Int.ofNat_le.1 hlimit
    | some n =>
        have hn : (k : Int) ≤ n := hlimit
        show k ≤ n.toNat
        omega
  have hrun := @Reducer.reduceNat_of_stepsIn _ _ _ _ h hu hallowed { term := t } rfl
  rw [Nat.zero_add] at hrun
  exact hrun

end UntypedLambda
