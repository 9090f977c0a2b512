import UntypedLambda.Proofs.Nameless.Alpha
import UntypedLambda.Proofs.Nameless.Beta
import UntypedLambda.Proofs.Nameless.Substitution
import UntypedLambda.Reduction.Step

/-!
# A step contracts the leftmost outermost redex

`Term.step` looks for a redex, gives the parameter of the redex a fresh name
if it has to, and substitutes.  On nameless forms all of this is the
contraction of the leftmost outermost redex: the names that the step avoids,
among them those of the scope it is made in, leave no trace there.

## Main results

* `namelessWithin_contract`: the contraction of a redex on nameless forms, in
  any scope.
* `normal_namelessWithin_iff`: a term has a redex exactly if its nameless form
  has one.
* `step_spec`: a step below any abstractions contracts the leftmost outermost
  redex, and there is no step exactly if there is no redex.
* `step_contracts_leftmost`: the same for terms by themselves, with what the
  scope of the step can and cannot change.
-/

namespace UntypedLambda.Term

open Nameless (Normal)

/-! ## Redexes -/

/-- The parts of a term, the term itself included. -/
def subterms : Term → List Term
  | var x => [var x]
  | abs x b => abs x b :: b.subterms
  | app f a => app f a :: (f.subterms ++ a.subterms)

/-- Some part of a term is the application of an abstraction. -/
def HasRedex (t : Term) : Prop := ∃ x b a, app (abs x b) a ∈ t.subterms

theorem not_hasRedex_var (x : Name) : ¬ HasRedex (var x) := by
  intro h
  obtain ⟨y, b, a, hmem⟩ := h
  simp [subterms] at hmem

theorem hasRedex_abs_iff (x : Name) (b : Term) :
    HasRedex (abs x b) ↔ HasRedex b := by
  simp [HasRedex, subterms]

theorem hasRedex_app_iff (f a : Term) :
    HasRedex (app f a) ↔ (∃ x b, f = abs x b) ∨ HasRedex f ∨ HasRedex a := by
  constructor
  · intro hredex
    obtain ⟨x, b, c, h⟩ := hredex
    rw [subterms, List.mem_cons, List.mem_append] at h
    rcases h with h | h | h
    · exact Or.inl ⟨x, b, (app.inj h).1.symm⟩
    · exact Or.inr (Or.inl ⟨x, b, c, h⟩)
    · exact Or.inr (Or.inr ⟨x, b, c, h⟩)
  · intro hredex
    rcases hredex with ⟨x, b, rfl⟩ | ⟨x, b, c, h⟩ | ⟨x, b, c, h⟩
    · exact ⟨x, b, a, by simp [subterms]⟩
    · exact ⟨x, b, c, by simp [subterms, h]⟩
    · exact ⟨x, b, c, by simp [subterms, h]⟩

theorem namelessWithin_eq_abs_iff (ctx : List Name) (t : Term) :
    (∃ b, t.namelessWithin ctx = .abs b) ↔ ∃ x b, t = abs x b := by
  cases t with
  | var x => simp [namelessWithin, Nameless.resolve_ne_abs]
  | abs x b => simp [namelessWithin]
  | app f a => simp [namelessWithin]

theorem normal_namelessWithin_iff (ctx : List Name) (t : Term) :
    Normal (t.namelessWithin ctx) ↔ ¬ t.HasRedex := by
  induction t generalizing ctx with
  | var x =>
      refine iff_of_true ?_ (not_hasRedex_var x)
      show Normal (Nameless.resolve ctx x)
      unfold Nameless.resolve
      split
      · exact Nameless.normal_bound _
      · exact Nameless.normal_free x
  | abs x b ih =>
      rw [namelessWithin, Nameless.normal_abs_iff, ih, hasRedex_abs_iff]
  | app f a ihf iha =>
      have hfn := namelessWithin_eq_abs_iff ctx f
      rw [namelessWithin, Nameless.normal_app_iff, ihf, iha, hasRedex_app_iff,
        not_or, not_or, ← hfn, not_exists]

/-! ## The contraction of a redex -/

theorem redexParam_spec (x : Name) (b a : Term) (around : List Name) :
    redexParam x b a around ∉ b.names := by
  have hfresh := fresh_not_mem x (a.freeNames ++ (abs x b).names ++ around)
  intro h
  have hmem : redexParam x b a around ∈
      a.freeNames ++ (abs x b).names ++ around := by
    simp [names, h]
  exact hfresh hmem

/-- The contraction of a redex is the instantiation of its body, whatever the
scope. -/
theorem namelessWithin_contract (ctx : List Name) (x : Name) (b a : Term)
    (s : Scope) :
    (contract x b a s).namelessWithin ctx =
      (b.namelessWithin (x :: ctx)).instantiate (a.namelessWithin ctx) := by
  unfold contract
  split
  · have hparam := redexParam_spec x b a s.names
    rw [namelessWithin_subst, namelessWithin_renameParam ctx hparam]
  · exact namelessWithin_subst ctx x b a

/-! ## The step -/

theorem step_abs (x : Name) (b : Term) (s : Scope) :
    ((abs x b).step s).1 = (b.step (s.enter x)).1.map (abs x) := rfl

theorem step_redex (x : Name) (b a : Term) (s : Scope) :
    ((app (abs x b) a).step s).1 = some (contract x b a s) := rfl

/-- In an application that is no redex the function is tried first, and the
argument in the scope that the function leaves behind. -/
theorem step_app {f : Term} (hf : ¬ ∃ x b, f = abs x b) (a : Term)
    (s : Scope) :
    ((app f a).step s).1 =
      match (f.step s).1 with
      | some f' => some (app f' a)
      | none => (a.step (f.step s).2).1.map (app f) := by
  have hstep : (app f a).step = do
      match ← f.step with
      | some f' => return some (app f' a)
      | none =>
          let a' ← a.step
          return a'.map (app f) := Walk.step_app Walk.contract hf a
  rw [hstep]
  simp only [bind, StateT.bind]
  rcases f.step s with ⟨_ | f', s'⟩ <;> rfl

/-- A step below abstractions over `ctx` contracts the leftmost outermost
redex, and there is no step exactly if there is no redex.  The names of `ctx`
need not be those of the scope. -/
theorem step_spec (t : Term) (s : Scope) (ctx : List Name) :
    match (t.step s).1 with
    | some u =>
        Nameless.Leftmost (t.namelessWithin ctx) (u.namelessWithin ctx)
    | none => Normal (t.namelessWithin ctx) := by
  induction t generalizing s ctx with
  | var x => exact (normal_namelessWithin_iff ctx _).2 (not_hasRedex_var x)
  | abs x b ih =>
      have hbody := ih (s.enter x) (x :: ctx)
      rw [step_abs]
      cases hstep : (b.step (s.enter x)).1 with
      | some b' =>
          rw [hstep] at hbody
          exact Nameless.leftmost_abs hbody
      | none =>
          rw [hstep] at hbody
          exact (Nameless.normal_abs_iff _).2 hbody
  | app f a ihf iha =>
      by_cases hf : ∃ x b, f = abs x b
      · obtain ⟨x, b, rfl⟩ := hf
        have hredex := Nameless.leftmost_redex (b.namelessWithin (x :: ctx))
          (a.namelessWithin ctx)
        rw [step_redex]
        show Nameless.Leftmost _ ((contract x b a s).namelessWithin ctx)
        rw [namelessWithin_contract]
        exact hredex
      · have hne : ∀ b, f.namelessWithin ctx ≠ .abs b := fun b hb =>
          hf ((namelessWithin_eq_abs_iff ctx f).1 ⟨b, hb⟩)
        have hfn := ihf s ctx
        rw [step_app hf]
        cases hstep : (f.step s).1 with
        | some f' =>
            rw [hstep] at hfn
            exact Nameless.leftmost_fn _ hne hfn
        | none =>
            rw [hstep] at hfn
            have harg := iha (f.step s).2 ctx
            cases hastep : (a.step (f.step s).2).1 with
            | some a' =>
                rw [hastep] at harg
                exact Nameless.leftmost_arg hne hfn harg
            | none =>
                rw [hastep] at harg
                exact (Nameless.normal_app_iff _ _).2 ⟨hne, hfn, harg⟩

theorem isSome_step_iff (t : Term) (s : Scope) :
    (t.step s).1.isSome = true ↔ t.HasRedex := by
  have hspec := step_spec t s []
  cases hstep : (t.step s).1 with
  | some u =>
      rw [hstep] at hspec
      have hredex : t.HasRedex := by
        by_contra hno
        exact (normal_namelessWithin_iff [] t).2 hno _ hspec.beta
      exact iff_of_true rfl hredex
  | none =>
      rw [hstep] at hspec
      have hno := (normal_namelessWithin_iff [] t).1 hspec
      exact iff_of_false Bool.false_ne_true hno

theorem leftmost_step {t u : Term} {s : Scope} (h : (t.step s).1 = some u) :
    Nameless.Leftmost t.nameless u.nameless := by
  have hspec := step_spec t s []
  rw [h] at hspec
  exact hspec

/-- What a step leaves of a term is, up to bound names, the same in all
scopes. -/
theorem nameless_step_scope (t : Term) (s s' : Scope) :
    ((t.step s').1.getD t).nameless = ((t.step s).1.getD t).nameless := by
  have hiff := (isSome_step_iff t s').trans (isSome_step_iff t s).symm
  cases hs : (t.step s).1 with
  | some u =>
      cases hs' : (t.step s').1 with
      | some u' => exact (leftmost_step hs').unique (leftmost_step hs)
      | none => simp [hs, hs'] at hiff
  | none =>
      cases hs' : (t.step s').1 with
      | some u' => simp [hs, hs'] at hiff
      | none => rfl

/-- **A step contracts exactly the leftmost outermost redex.**  There is a step
exactly if there is a redex.  Then the nameless form has its leftmost outermost
redex contracted, and otherwise the term stays as it is.  Another scope can
change nothing but bound names. -/
theorem step_contracts_leftmost (t : Term) (s : Scope) :
    ((t.step s).1.isSome = true ↔ t.HasRedex) ∧
      (t.HasRedex →
        Nameless.Leftmost t.nameless ((t.step s).1.getD t).nameless) ∧
      (¬ t.HasRedex → (t.step s).1.getD t = t) ∧
      ∀ s' : Scope, (t.step s').1.isSome = (t.step s).1.isSome ∧
        ((t.step s').1.getD t).alphaEq ((t.step s).1.getD t) = true := by
  refine ⟨isSome_step_iff t s, ?_, ?_, ?_⟩
  · intro hredex
    obtain ⟨u, hu⟩ := Option.isSome_iff_exists.1 ((isSome_step_iff t s).2 hredex)
    rw [hu]
    exact leftmost_step hu
  · intro hno
    have hnone : (t.step s).1 = none := by
      rw [← Option.not_isSome_iff_eq_none, isSome_step_iff]
      exact hno
    rw [hnone]
    rfl
  · intro s'
    refine ⟨?_, (alphaEq_iff _ _).2 (nameless_step_scope t s s')⟩
    rw [Bool.eq_iff_iff, isSome_step_iff, isSome_step_iff]

/-- The argument shares a name with the parameter and the scope binds what would
be a fresh name for it. -/
theorem step_contracts_leftmost_shared :
    let t := abs "x'" (app (abs "x" (abs "y" (app (var "x") (var "y"))))
      (app (var "y") (var "x")))
    let u := abs "x'" (abs "y'" (app (app (var "y") (var "x")) (var "y'")))
    let s := Scope.ofCounts [("x''", 3), ("y'", -2)]
    t.HasRedex ∧ Nameless.Leftmost t.nameless u.nameless ∧
      ¬ u.HasRedex ∧ (u.step s).1.getD u = u := by
  intro t u s
  have hredex : t.HasRedex :=
    (hasRedex_abs_iff _ _).2 ((hasRedex_app_iff _ _).2 (Or.inl ⟨_, _, rfl⟩))
  have hstep : (t.step s).1.getD t = u := by decide +kernel
  have hleft := (step_contracts_leftmost t s).2.1 hredex
  rw [hstep] at hleft
  have hno : ¬ u.HasRedex := by
    simp [u, hasRedex_abs_iff, hasRedex_app_iff, not_hasRedex_var]
  exact ⟨hredex, hleft, hno, (step_contracts_leftmost u s).2.2.1 hno⟩

end UntypedLambda.Term
