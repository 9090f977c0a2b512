import UntypedLambda.Proofs.Reduction.Completeness

/-!
# A reducer counts what it does

A reducer may be asked for single steps and for reductions under any ceilings,
in any order.  Its count then is the number of contractions that lead from the
term it started with to the one it holds, and a term that it calls normal has no
redex.  The converse need not hold: a step that leaves a normal form does not
look for another redex, and it takes a reduction, under whatever ceiling, to
find out.

A reduction starts from the term and the count alone and does not care whether
the term has been called normal.  So two of them in a row are one.

## Main results

* `reduceNat_spec`: what a reduction does, in one sentence.
* `reduceNat_add`: two reductions in a row are one.
* `Truthful.afterAll`: any calls leave the count and the flag right.
* `counters_tell_truth`: what can be relied on after any calls.
-/

namespace UntypedLambda

/-- What is left of a term after `n` steps, if it has that many. -/
def Term.contracted : Nat → Term → Option Term
  | 0, t => some t
  | n + 1, t => t.stepTop.bind (contracted n)

theorem Term.contracted_add (m n : Nat) (t : Term) :
    t.contracted (m + n) = (t.contracted m).bind (contracted n) := by
  induction m generalizing t with
  | zero => simp [contracted]
  | succ m ih =>
      rw [Nat.succ_add, contracted, contracted]
      cases t.stepTop with
      | none => rfl
      | some u => exact ih u

namespace Reducer

/-! ## One reduction -/

/-- Whether the term has been called normal does not matter for a reduction. -/
theorem reduceNat_flag (n : Nat) (r : Reducer) (flag : Bool) :
    reduceNat n { r with normal := flag } = reduceNat n r := by
  induction n generalizing r with
  | zero => rfl
  | succ n ih =>
      rw [reduceNat_succ, reduceNat_succ]
      cases hstep : r.term.stepTop with
      | some t =>
          rw [step_of_some hstep, step_of_some (r := { r with normal := flag }) hstep]
          exact ih { r with term := t, passes := r.passes + 1 }
      | none =>
          rw [step_of_none hstep, step_of_none (r := { r with normal := flag }) hstep]

/-- A reduction makes some steps and counts them, not more than it may.  It looks
for a redex in what is left, and makes fewer steps only if there is none. -/
theorem reduceNat_spec (n : Nat) (r : Reducer) :
    ∃ k ≤ n, ∃ u, r.term.contracted k = some u ∧
      reduceNat n r = ⟨u, r.passes + k, u.stepTop.isNone⟩ ∧
      (k < n → u.stepTop = none) := by
  induction n generalizing r with
  | zero => exact ⟨0, Nat.le_refl 0, r.term, rfl, rfl, fun h => absurd h (by omega)⟩
  | succ n ih =>
      cases hstep : r.term.stepTop with
      | some t =>
          obtain ⟨k, hk, u, hu, hreduce, hfewer⟩ :=
            ih { r with term := t, passes := r.passes + 1 }
          have hcount : r.passes + 1 + k = r.passes + (k + 1) := by omega
          refine ⟨k + 1, by omega, u, ?_, ?_, fun h => hfewer (by omega)⟩
          · rw [Term.contracted, hstep]
            exact hu
          · rw [reduceNat_succ, step_of_some hstep]
            dsimp only at hreduce ⊢
            rw [hreduce, hcount]
      | none =>
          refine ⟨0, Nat.zero_le _, r.term, rfl, ?_, fun _ => hstep⟩
          rw [reduceNat_succ, step_of_none hstep, hstep]
          rfl

/-- Two reductions in a row are one. -/
theorem reduceNat_add (m n : Nat) (r : Reducer) :
    reduceNat n (reduceNat m r) = reduceNat (m + n) r := by
  induction m generalizing r with
  | zero =>
      rw [Nat.zero_add, reduceNat_zero]
      exact reduceNat_flag n r _
  | succ m ih =>
      rw [Nat.succ_add, reduceNat_succ, reduceNat_succ]
      cases hstep : r.term.stepTop with
      | some t =>
          rw [step_of_some hstep]
          exact ih _
      | none =>
          have hnormal := (Term.normal_nameless_iff r.term).2 hstep
          rw [step_of_none hstep]
          exact @reduceNat_of_normal { r with normal := true } hnormal n

/-- How many steps a reduction under a limit may make. -/
def allowance (limit : Option Int) : Int := max (limit.getD defaultPasses) 0

theorem reduce_spec (r : Reducer) (limit : Option Int) :
    ∃ k : Nat, k ≤ allowance limit ∧ ∃ u, r.term.contracted k = some u ∧
      r.reduce limit = ⟨u, r.passes + k, u.stepTop.isNone⟩ ∧
      (k < allowance limit → u.stepTop = none) := by
  have hallowed : (((limit.map Int.toNat).getD defaultPasses : Nat) : Int) =
      allowance limit := by
    cases limit with
    | none => rfl
    | some n => exact Int.toNat_eq_max n
  obtain ⟨k, hk, u, hu, hreduce, hfewer⟩ :=
    reduceNat_spec ((limit.map Int.toNat).getD defaultPasses) r
  refine ⟨k, ?_, u, hu, hreduce, fun h => hfewer ?_⟩
  · rw [← hallowed]
    exact Int.ofNat_le.2 hk
  · rw [← hallowed] at h
    exact Int.ofNat_lt.1 h

/-! ## Any calls -/

/-- A call of a reducer. -/
inductive Call where
  | step
  | reduce (limit : Option Int)

def after (r : Reducer) : Call → Reducer
  | .step => r.step.2
  | .reduce limit => r.reduce limit

/-- The reducer after some calls. -/
def afterAll (r : Reducer) (calls : List Call) : Reducer := calls.foldl after r

/-- The term is what is left of `t` after the steps that have been counted, and it
is only called normal if it has no redex. -/
structure Truthful (t : Term) (r : Reducer) : Prop where
  term : t.contracted r.passes = some r.term
  normal : r.normal = true → ¬ r.term.HasRedex

variable {t : Term} {r : Reducer}

theorem truthful_new (t : Term) : Truthful t { term := t } :=
  ⟨rfl, fun h => absurd h Bool.false_ne_true⟩

theorem Truthful.step (h : Truthful t r) : Truthful t r.step.2 := by
  cases hstep : r.term.stepTop with
  | some u =>
      have hredex : ¬ r.normal = true := by
        intro hflag
        have hnone := h.normal hflag
        rw [← Term.stepTop_eq_none_iff, hstep] at hnone
        cases hnone
      rw [step_of_some hstep]
      refine ⟨?_, fun hflag => ?_⟩
      · rw [Term.contracted_add, h.term]
        show r.term.stepTop.bind some = some u
        rw [hstep]
        rfl
      · exact absurd hflag hredex
  | none =>
      rw [step_of_none hstep]
      exact ⟨h.term, fun _ => (Term.stepTop_eq_none_iff _).1 hstep⟩

theorem Truthful.reduce (h : Truthful t r) (limit : Option Int) :
    Truthful t (r.reduce limit) := by
  obtain ⟨k, -, u, hu, hreduce, -⟩ := reduce_spec r limit
  rw [hreduce]
  refine ⟨?_, fun hflag => ?_⟩
  · rw [Term.contracted_add, h.term]
    exact hu
  · exact (Term.stepTop_eq_none_iff u).1 (Option.isNone_iff_eq_none.1 hflag)

/-- A call keeps a reducer truthful. -/
theorem Truthful.after (h : Truthful t r) (call : Call) :
    Truthful t (r.after call) := by
  cases call with
  | step => exact h.step
  | reduce limit => exact h.reduce limit

theorem Truthful.afterAll (h : Truthful t r) (calls : List Call) :
    Truthful t (r.afterAll calls) := by
  induction calls generalizing r with
  | nil => exact h
  | cons call calls ih => exact ih (h.after call)

/-- **The counters of a reducer tell the truth after any calls.**  Its term is
what is left after as many steps as it has counted, and has no redex if it is
called normal.  The next reduction, under any limit, calls its term normal
exactly if that has no redex; it makes at most as many steps as it may, and
fewer only if it ends in a normal form.  Two reductions in a row are one. -/
theorem counters_tell_truth (t : Term) (calls : List Call) :
    let r := afterAll { term := t } calls
    t.contracted r.passes = some r.term ∧
      (r.normal = true → ¬ r.term.HasRedex) ∧
      (∀ limit : Option Int,
        ((r.reduce limit).normal = true ↔ ¬ (r.reduce limit).term.HasRedex) ∧
          r.passes ≤ (r.reduce limit).passes ∧
          (r.reduce limit).passes ≤ r.passes + max (limit.getD 100) 0 ∧
          ((r.reduce limit).passes < r.passes + max (limit.getD 100) 0 →
            ¬ (r.reduce limit).term.HasRedex)) ∧
      ∀ m n : Nat,
        (r.reduce (some m)).reduce (some n) = r.reduce (some (m + n)) := by
  intro r
  have htruthful : Truthful t r := (truthful_new t).afterAll calls
  refine ⟨htruthful.term, htruthful.normal, fun limit => ?_, fun m n => ?_⟩
  · obtain ⟨k, hk, u, -, hreduce, hfewer⟩ := reduce_spec r limit
    have hallowed : allowance limit = max (limit.getD 100) 0 := rfl
    rw [hallowed] at hk hfewer
    rw [hreduce, ← Term.stepTop_eq_none_iff, Option.isNone_iff_eq_none]
    dsimp only
    refine ⟨Iff.rfl, by omega, by omega, fun h => hfewer (by omega)⟩
  · have hsum : ((m : Int) + n).toNat = m + n := by omega
    have hrun := reduceNat_add m n r
    rw [← hsum] at hrun
    exact hrun

/-- A step that is no reduction leaves a redex, which the last of the allowed
passes contracts. -/
theorem counters_tell_truth_last_pass :
    let t := Term.app (.abs "x" (.var "x"))
      (.app (.abs "y" (.app (.var "y") (.var "y"))) (.var "z"))
    let calls := [.reduce (some (-3)), .step, .reduce (some 0), .reduce (some 1)]
    let r := afterAll { term := t } calls
    r.passes = 2 ∧ r.normal = true ∧ ¬ r.term.HasRedex ∧
      (r.reduce none).passes < r.passes + max ((none : Option Int).getD 100) 0 ∧
      ¬ (r.reduce none).term.HasRedex := by
  intro t calls r
  have hpasses : r.passes = 2 := by decide +kernel
  have hnormal : r.normal = true := by decide +kernel
  have hfewer : (r.reduce none).passes <
      r.passes + max ((none : Option Int).getD 100) 0 := by decide +kernel
  obtain ⟨-, hflag, hreduce, -⟩ := counters_tell_truth t calls
  exact ⟨hpasses, hnormal, hflag hnormal, hfewer, (hreduce none).2.2.2 hfewer⟩

end Reducer

end UntypedLambda
