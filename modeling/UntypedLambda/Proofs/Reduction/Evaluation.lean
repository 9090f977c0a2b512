import UntypedLambda.Proofs.Environment.Hygiene
import UntypedLambda.Proofs.Reduction.Completeness

/-!
# What evaluation keeps

Evaluation unfolds the definitions in a term and reduces what it stands for.
Two terms that differ in bound names only are unfolded to such terms again, as
long as their abstractions bind no name of a definition, and are then reduced
side by side: where one has a redex the other has it too, and the contractions
are the same up to bound names, though the reducer may invent different names
on the two sides.

No step of an evaluation brings in free names.  Unfolding leaves none that has
a definition, so none turns up later, and what evaluation ends with stands for
itself.

## Main results

* `reduceNat_congr`: terms that are equal up to bound names are reduced side by
  side.
* `mem_freeNames_reduceNat`: reduction brings in no free names.
* `evaluate_alphaEq`: evaluation respects equality up to bound names.
* `evaluate_idempotent`: a normal form that evaluation ends with is evaluated
  to itself.
-/

namespace UntypedLambda

open Nameless (Beta Leftmost Normal)
open Relation (ReflTransGen)

namespace Reducer

/-! ## Two runs side by side -/

/-- Terms that are equal up to bound names have steps to such terms, or none of
them has a step. -/
theorem stepTop_congr {t u : Term} (h : t.nameless = u.nameless) :
    t.stepTop.map Term.nameless = u.stepTop.map Term.nameless := by
  cases ht : t.stepTop with
  | none =>
      have hnormal := (Term.normal_nameless_iff t).2 ht
      rw [h] at hnormal
      rw [(Term.normal_nameless_iff u).1 hnormal]
  | some t' =>
      have hleft := Term.leftmost_stepTop ht
      cases hu : u.stepTop with
      | none =>
          have hnormal := (Term.normal_nameless_iff u).2 hu
          rw [← h] at hnormal
          exact absurd hleft.beta (hnormal _)
      | some u' =>
          have hleft' := Term.leftmost_stepTop hu
          rw [← h] at hleft'
          exact congrArg some (hleft.unique hleft')

/-- Reducers whose terms are equal up to bound names make the same number of
contractions, end with such terms and say the same about them. -/
theorem reduceNat_congr {r r' : Reducer} (n : Nat)
    (hterm : r.term.nameless = r'.term.nameless)
    (hpasses : r.passes = r'.passes) :
    (reduceNat n r).term.nameless = (reduceNat n r').term.nameless ∧
      (reduceNat n r).passes = (reduceNat n r').passes ∧
      (reduceNat n r).normal = (reduceNat n r').normal := by
  have hstep := stepTop_congr hterm
  induction n generalizing r r' with
  | zero =>
      refine ⟨hterm, hpasses, ?_⟩
      have hnone := congrArg Option.isNone hstep
      simpa [reduceNat_zero] using hnone
  | succ n ih =>
      cases ht : r.term.stepTop with
      | none =>
          rw [ht] at hstep
          have ht' : r'.term.stepTop = none := by
            simpa using hstep.symm
          rw [reduceNat_succ, reduceNat_succ, step_of_none ht, step_of_none ht']
          exact ⟨hterm, hpasses, rfl⟩
      | some t =>
          rw [ht] at hstep
          obtain ⟨t', ht', hsame⟩ := Option.map_eq_some_iff.1 hstep.symm
          rw [reduceNat_succ, reduceNat_succ, step_of_some ht, step_of_some ht']
          have hpasses' : r.passes + 1 = r'.passes + 1 := by omega
          exact ih hsame.symm hpasses' (stepTop_congr hsame.symm)

/-! ## Free names -/

theorem mem_freeNames_leftmost {M N : Nameless}
    (h : ReflTransGen Leftmost M N) {z : Name} (hz : z ∈ N.freeNames) :
    z ∈ M.freeNames := by
  induction h with
  | refl => exact hz
  | tail _ hstep ih => exact ih (hstep.beta.mem_freeNames hz)

/-- Reduction brings in no free names. -/
theorem mem_freeNames_reduceNat {n : Nat} {r : Reducer} {z : Name}
    (hz : z ∈ (reduceNat n r).term.freeNames) : z ∈ r.term.freeNames := by
  rw [← Term.mem_freeNames_nameless] at hz ⊢
  exact mem_freeNames_leftmost (reduceNat_sound n r).1 hz

end Reducer

namespace Environment

variable {env : Environment}

/-- **Evaluation respects equality up to bound names**, if the abstractions of
the two terms bind no name that is free in a definition: it ends with terms
that are equal up to bound names, after the same number of contractions, and
both are in normal form or neither. -/
theorem evaluate_alphaEq (hacyclic : env.Acyclic) {a b : Term}
    (hab : a.alphaEq b = true) (ha : ∀ x ∈ a.params, ¬ env.Mentions x)
    (hb : ∀ x ∈ b.params, ¬ env.Mentions x) (limit : Option Int) :
    (env.evaluate a limit).alphaEq (env.evaluate b limit) = true ∧
      (env.reduce a limit).passes = (env.reduce b limit).passes ∧
      (env.reduce a limit).normal = (env.reduce b limit).normal := by
  have hnameless : a.nameless = b.nameless := (Term.alphaEq_iff a b).1 hab
  have hexpand : (env.expandTop a).nameless = (env.expandTop b).nameless := by
    rw [nameless_expandTop hacyclic ha, nameless_expandTop hacyclic hb,
      hnameless]
  have hrun := @Reducer.reduceNat_congr { term := env.expandTop a }
    { term := env.expandTop b }
    ((limit.map Int.toNat).getD Reducer.defaultPasses) hexpand rfl
  obtain ⟨hterm, hpasses, hnormal⟩ := hrun
  exact ⟨(Term.alphaEq_iff _ _).2 hterm, hpasses, hnormal⟩

/-- The contraction in the first term gives its inner abstraction another name
than the one in the second, below both of which a definition is used. -/
theorem evaluate_alphaEq_renamed :
    let env : Environment :=
      (Table.insert ∅ "m" (.var "q")).insert "k"
        (.abs "p" (.app (.var "m") (.var "p")))
    let a := Term.abs "y" (.app (.abs "x" (.abs "y" (.var "x")))
      (.app (.var "k") (.var "y")))
    let b := Term.abs "z" (.app (.abs "u" (.abs "v" (.var "u")))
      (.app (.var "k") (.var "z")))
    env.Acyclic ∧ a.alphaEq b = true ∧ (∀ x ∈ a.params, ¬ env.Mentions x) ∧
      (∀ x ∈ b.params, ¬ env.Mentions x) ∧
      (env.evaluate a none).alphaEq (env.evaluate b none) = true ∧
      env.evaluate a none ≠ env.evaluate b none := by
  intro env a b
  have hm : reaches ∅ "m" (.var "q") = false := by cbv
  have hk : reaches (Table.insert ∅ "m" (.var "q")) "k"
      (.abs "p" (.app (.var "m") (.var "p"))) = false := by cbv
  have hacyclic : env.Acyclic :=
    acyclic_insert_of_reaches (acyclic_insert_of_reaches acyclic_empty hm) hk
  have hab : a.alphaEq b = true := by decide
  have ha : ∀ x ∈ a.params, ¬ env.Mentions x := by decide
  have hb : ∀ x ∈ b.params, ¬ env.Mentions x := by decide
  have hsame := evaluate_alphaEq hacyclic hab ha hb none
  exact ⟨hacyclic, hab, ha, hb, hsame.1, by decide +kernel⟩

/-- What evaluation ends with has no free name that is defined. -/
theorem undefined_of_mem_evaluate (hacyclic : env.Acyclic) {t : Term}
    {limit : Option Int} {x : Name}
    (hx : x ∈ (env.evaluate t limit).freeNames) : env.get? x = none := by
  have hexpand : x ∈ (env.expandTop t).freeNames :=
    Reducer.mem_freeNames_reduceNat hx
  exact (unfolds_expandTop hacyclic t).undefined_of_mem hexpand
    List.not_mem_nil

/-- A term without free defined names stands for itself. -/
theorem expandTop_of_undefined (hacyclic : env.Acyclic) {t : Term}
    (h : ∀ x ∈ t.freeNames, env.get? x = none) : env.expandTop t = t :=
  (unfolds_expandTop hacyclic t).unique (.refl fun x hx _ => h x hx)

/-- **Evaluation is idempotent.**  If it ends with a normal form, then this
stands for itself, there is nothing in it to contract, and evaluating it again,
under any ceiling, gives the same term back. -/
theorem evaluate_idempotent (hacyclic : env.Acyclic) {t : Term}
    {limit : Option Int} (hnormal : (env.reduce t limit).normal = true)
    (limit' : Option Int) :
    let u := env.evaluate t limit
    env.expandTop u = u ∧
      env.reduce u limit' = { term := u, passes := 0, normal := true } ∧
      env.evaluate u limit' = u := by
  intro u
  have hexpand : env.expandTop u = u :=
    expandTop_of_undefined hacyclic fun _ hx =>
      undefined_of_mem_evaluate hacyclic hx
  have hu : Normal u.nameless :=
    (Reducer.reduceNat_sound _ { term := env.expandTop t }).2 hnormal
  have hreduce : env.reduce u limit' =
      { term := u, passes := 0, normal := true } := by
    rw [reduce, hexpand]
    exact @Reducer.reduceNat_of_normal { term := u } hu
      ((limit'.map Int.toNat).getD Reducer.defaultPasses)
  refine ⟨hexpand, hreduce, ?_⟩
  rw [evaluate, hreduce]

/-- The normal form is reached at the ceiling, and the name that its inner
abstraction was given is not changed again. -/
theorem evaluate_idempotent_renamed :
    let env : Environment := Table.insert ∅ "k" (.abs "x" (.abs "y" (.var "x")))
    let t := Term.app (.var "k") (.var "y")
    let u := Term.abs "y'" (.var "y")
    env.Acyclic ∧ (env.reduce t (some 1)).normal = true ∧
      env.evaluate t (some 1) = u ∧ env.evaluate u (some (-1)) = u := by
  intro env t u
  have hk : reaches ∅ "k" (.abs "x" (.abs "y" (.var "x"))) = false := by cbv
  have hacyclic : env.Acyclic := acyclic_insert_of_reaches acyclic_empty hk
  have hnormal : (env.reduce t (some 1)).normal = true := by decide +kernel
  have hresult : env.evaluate t (some 1) = u := by decide +kernel
  have hagain := (evaluate_idempotent hacyclic hnormal (some (-1))).2.2
  rw [hresult] at hagain
  exact ⟨hacyclic, hnormal, hresult, hagain⟩

end Environment

end UntypedLambda
