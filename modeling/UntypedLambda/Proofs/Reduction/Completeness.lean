import UntypedLambda.Proofs.Nameless.Standardization
import UntypedLambda.Proofs.Reduction.Leftmost
import UntypedLambda.Reduction.Reducer

/-!
# Reduction finds every normal form

A term reduces to another if contractions of any redexes, in any order, lead
from one to the other up to bound names (`Term.Reduces`).  A reducer contracts
leftmost outermost redexes only, and by standardization these lead to every
normal form there is.  Because a term has at most one leftmost outermost
contraction, the names that the reducer invents on its way, and the ceiling it
is given, do not matter for where it arrives.

## Main results

* `reduceNat_sound`: a reducer follows leftmost outermost contractions, and
  what it calls normal has no redex.
* `reduceNat_complete`: a reducer with a high enough ceiling follows such
  contractions to their end.
* `reduce_finds_normal_form`: a reducer finds the normal form of a term that
  reduces to one, and reports no other.
-/

namespace UntypedLambda

open Nameless (Beta Leftmost Normal)
open Relation (ReflTransGen)

/-- Contractions of any redexes, in any order, lead from `t` to `u` up to bound
names. -/
def Term.Reduces (t u : Term) : Prop :=
  ReflTransGen Beta t.nameless u.nameless

namespace Term

theorem leftmost_stepTop {t u : Term} (h : t.stepTop = some u) :
    Leftmost t.nameless u.nameless := leftmost_step h

theorem stepTop_eq_none_iff (t : Term) : t.stepTop = none ↔ ¬ t.HasRedex := by
  have hredex : t.stepTop.isSome = true ↔ t.HasRedex := isSome_step_iff t ∅
  rw [← hredex, Option.not_isSome_iff_eq_none]

theorem normal_nameless_iff (t : Term) :
    Normal t.nameless ↔ t.stepTop = none := by
  have hnormal : Normal t.nameless ↔ ¬ t.HasRedex :=
    normal_namelessWithin_iff [] t
  rw [hnormal, stepTop_eq_none_iff]

end Term

namespace Reducer

/-- A reducer follows leftmost outermost contractions, and what it calls normal
has no redex. -/
theorem reduceNat_sound (n : Nat) (r : Reducer) :
    ReflTransGen Leftmost r.term.nameless (reduceNat n r).term.nameless ∧
      ((reduceNat n r).normal = true →
        Normal (reduceNat n r).term.nameless) := by
  induction n generalizing r with
  | zero =>
      refine ⟨.refl, fun h => ?_⟩
      exact (Term.normal_nameless_iff _).2 (Option.isNone_iff_eq_none.1 h)
  | succ n ih =>
      cases hstep : r.term.stepTop with
      | some t =>
          rw [reduceNat_succ, step_of_some hstep]
          obtain ⟨hred, hnormal⟩ := ih { r with term := t, passes := r.passes + 1 }
          exact ⟨.head (Term.leftmost_stepTop hstep) hred, hnormal⟩
      | none =>
          rw [reduceNat_succ, step_of_none hstep]
          exact ⟨.refl, fun _ => (Term.normal_nameless_iff _).2 hstep⟩

/-- A reducer whose term is in normal form stops at once and says so. -/
theorem reduceNat_of_normal {r : Reducer} (h : Normal r.term.nameless)
    (n : Nat) : reduceNat n r = { r with normal := true } := by
  have hnone := (Term.normal_nameless_iff r.term).1 h
  cases n with
  | zero => rw [reduceNat_zero, hnone, Option.isNone_none]
  | succ n => rw [reduceNat_succ, step_of_none hnone]

/-- A reducer with a high enough ceiling follows leftmost outermost
contractions to the normal form they lead to. -/
theorem reduceNat_complete {M U : Nameless} (h : ReflTransGen Leftmost M U)
    (hU : Normal U) :
    ∃ N, ∀ n, N ≤ n → ∀ r : Reducer, r.term.nameless = M →
      (reduceNat n r).normal = true ∧ (reduceNat n r).term.nameless = U := by
  induction h using ReflTransGen.head_induction_on with
  | refl =>
      refine ⟨0, fun n _ r hr => ?_⟩
      rw [reduceNat_of_normal (hr ▸ hU)]
      exact ⟨rfl, hr⟩
  | @head M M' hstep _ ih =>
      obtain ⟨N, hN⟩ := ih
      refine ⟨N + 1, fun n hn r hr => ?_⟩
      obtain ⟨m, rfl⟩ : ∃ m, n = m + 1 := ⟨n - 1, by omega⟩
      have hm : N ≤ m := by omega
      cases ht : r.term.stepTop with
      | none =>
          have hnormal := (Term.normal_nameless_iff r.term).2 ht
          rw [hr] at hnormal
          exact absurd hstep.beta (hnormal M')
      | some t =>
          have hleft := Term.leftmost_stepTop ht
          rw [hr] at hleft
          rw [reduceNat_succ, step_of_some ht]
          exact hN m hm _ (hleft.unique hstep)

/-- **Reduction finds every normal form.**  If a term reduces to a normal form
in any way, then a reducer with a high enough ceiling ends with it, up to bound
names, and whatever a reducer calls normal, under any ceiling, is it. -/
theorem reduce_finds_normal_form {t u : Term} (htu : t.Reduces u)
    (hu : ¬ u.HasRedex) :
    (∃ N : Nat, ∀ n : Int, N ≤ n →
      (reduce { term := t } (some n)).normal = true ∧
        (reduce { term := t } (some n)).term.alphaEq u = true) ∧
      ∀ limit : Option Int, (reduce { term := t } limit).normal = true →
        (reduce { term := t } limit).term.alphaEq u = true := by
  have hU : Normal u.nameless := (Term.normal_namelessWithin_iff [] u).2 hu
  have hleft := Nameless.leftmost_of_reduces htu hU
  constructor
  · obtain ⟨N, hN⟩ := reduceNat_complete hleft hU
    refine ⟨N, fun n hn => ?_⟩
    obtain ⟨hnormal, hterm⟩ := hN n.toNat (by omega) { term := t } rfl
    exact ⟨hnormal, (Term.alphaEq_iff _ _).2 hterm⟩
  · intro limit hnormal
    obtain ⟨hred, hfound⟩ := reduceNat_sound
      ((limit.map Int.toNat).getD defaultPasses) { term := t }
    have hsame := Nameless.leftmost_normal_unique hred (hfound hnormal) hleft hU
    exact (Term.alphaEq_iff _ _).2 hsame

/-- The argument that is thrown away has no normal form, and contracting it
first does not keep the reducer from the normal form of the whole. -/
theorem reduce_finds_normal_form_discard :
    let ω := Term.abs "x" (.app (.var "x") (.var "x"))
    let t := Term.app (.abs "z" (.var "y")) (.app ω ω)
    let u := Term.var "y"
    t.Reduces u ∧ ¬ u.HasRedex ∧
      ∃ N : Nat, ∀ n : Int, N ≤ n →
        (reduce { term := t } (some n)).normal = true ∧
          (reduce { term := t } (some n)).term.alphaEq u = true := by
  intro ω t u
  have harg : Beta t.nameless t.nameless := ⟨[.arg], .arg _ (.redex _ _)⟩
  have houter : Beta t.nameless u.nameless := ⟨[], .redex (.free "y") _⟩
  have htu : t.Reduces u := .head harg (.single houter)
  have hu : ¬ u.HasRedex := Term.not_hasRedex_var "y"
  exact ⟨htu, hu, (reduce_finds_normal_form htu hu).1⟩

end Reducer

end UntypedLambda
