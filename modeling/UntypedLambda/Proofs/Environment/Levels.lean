import Mathlib.Algebra.Order.BigOperators.Group.List
import Mathlib.Algebra.Order.Ring.Nat
import UntypedLambda.Proofs.Environment.Resolution

/-!
# Enough levels in every scope

With negative counts in the scope, a definition can be unfolded inside itself even
in an acyclic environment: `λf.f` has no free name, but below a scope in which the
count of `f` is negative its body is not bound by it, and if it is the definition
of `f`, it is taken up again.  This cannot go on.  Between two visits of one
definition an abstraction over a defined name has been entered that did not bind
it yet, and there are only so many of these (`slack`).

So the levels to which the environment unfolds are enough in every scope: the
recursion of unfolding ends, and more levels change nothing.

## Main results

* `slack_enter_lt`: what entering an abstraction does to the slack.
* `LedTo.abs`, `LedTo.definition`: the steps of the recursion.
* `calledBy_acc`: in an acyclic environment the recursion ends in every scope.
* `expandWithin_of_levels_le`: and it has ended before the last level.
-/

namespace UntypedLambda

theorem Scope.isBound_eq_false_iff (s : Scope) (x : Name) :
    s.isBound x = false ↔ s.count x ≤ 0 := by
  rw [isBound, decide_eq_false_iff_not, gt_iff_lt, not_lt]

namespace Environment

open Relation (TransGen)

variable {env : Environment}

/-! ## Slack -/

theorem slack_congr (env : Environment) {s s' : Scope} (hcount : s'.count = s.count) :
    env.slack s' = env.slack s := by
  rw [slack, slack, hcount]

theorem toNat_enter_le (s : Scope) (x y : Name) :
    (1 - (s.enter x).count y).toNat ≤ (1 - s.count y).toNat := by
  rw [Scope.count_enter]
  by_cases hxy : x = y
  · rw [if_pos hxy, hxy]
    omega
  · rw [if_neg hxy]

theorem slack_enter_le (env : Environment) (s : Scope) (x : Name) :
    env.slack (s.enter x) ≤ env.slack s :=
  List.sum_le_sum fun y _ => toNat_enter_le s x y

/-- An abstraction over a defined name that did not bind it yet uses up slack. -/
theorem slack_enter_lt {s : Scope} {x : Name} (hkey : x ∈ env.keys)
    (hcount : s.count x ≤ 0) : env.slack (s.enter x) < env.slack s := by
  have hx : (1 - (s.enter x).count x).toNat < (1 - s.count x).toNat := by
    rw [Scope.count_enter, if_pos rfl]
    omega
  exact List.sum_lt_sum _ _ (fun y _ => toNat_enter_le s x y) ⟨x, hkey, hx⟩

/-! ## The steps of the recursion -/

/-- The definitions of `seen` lead to every occurrence in `t` that is unfolded in
the scope `s`. -/
def LedTo (env : Environment) (seen : List Name) (t : Term) (s : Scope) : Prop :=
  ∀ x ∈ seen, ∀ y ∈ t.freeNames, s.isBound y = false → y ∈ env.keys →
    TransGen env.Follows x y

/-- A bound on the definitions that can be taken up one inside another, if those of
`seen` have been taken up since slack was last used. -/
def visits (env : Environment) (seen : List Name) (s : Scope) : Nat :=
  env.size * env.slack s + env.unseen seen

theorem ledTo_nil (env : Environment) (t : Term) (s : Scope) : env.LedTo [] t s := by
  intro x hx
  cases hx

theorem visits_congr (env : Environment) (seen : List Name) {s s' : Scope}
    (hcount : s'.count = s.count) : env.visits seen s' = env.visits seen s := by
  rw [visits, visits, env.slack_congr hcount]

theorem LedTo.congr {seen : List Name} {t : Term} {s s' : Scope}
    (h : env.LedTo seen t s) (hcount : s'.count = s.count) : env.LedTo seen t s' := by
  intro x hx y hy hbound
  refine h x hx y hy ?_
  rwa [Scope.isBound, ← hcount]

theorem LedTo.fn {seen : List Name} {f a : Term} {s : Scope}
    (h : env.LedTo seen (.app f a) s) : env.LedTo seen f s :=
  fun x hx y hy => h x hx y ((Term.mem_freeNames_app y f a).2 (Or.inl hy))

theorem LedTo.arg {seen : List Name} {f a : Term} {s : Scope}
    (h : env.LedTo seen (.app f a) s) : env.LedTo seen a s :=
  fun x hx y hy => h x hx y ((Term.mem_freeNames_app y f a).2 (Or.inr hy))

/-- Below an abstraction either slack has been used, and the definitions may be
taken up anew, or its parameter is not unfolded. -/
theorem LedTo.abs {seen : List Name} {x : Name} {b : Term} {s : Scope}
    (h : env.LedTo seen (.abs x b) s) :
    ∃ seen', env.LedTo seen' b (s.enter x) ∧
      env.visits seen' (s.enter x) ≤ env.visits seen s := by
  by_cases hslack : x ∈ env.keys ∧ s.count x ≤ 0
  · have hlt := slack_enter_lt hslack.1 hslack.2
    have hmul : env.size * (env.slack (s.enter x) + 1) ≤ env.size * env.slack s :=
      Nat.mul_le_mul_left env.size hlt
    have hunseen := env.unseen_le_size []
    refine ⟨[], env.ledTo_nil b (s.enter x), ?_⟩
    rw [Nat.mul_add] at hmul
    unfold visits
    omega
  · have hmul : env.size * env.slack (s.enter x) ≤ env.size * env.slack s :=
      Nat.mul_le_mul_left env.size (env.slack_enter_le s x)
    refine ⟨seen, ?_, Nat.add_le_add_right hmul (env.unseen seen)⟩
    intro z hz y hy hbound hkey
    rw [Scope.isBound_eq_false_iff, Scope.count_enter] at hbound
    by_cases hxy : x = y
    · rw [if_pos hxy] at hbound
      exact absurd ⟨hxy ▸ hkey, by omega⟩ hslack
    · rw [if_neg hxy] at hbound
      exact h z hz y ((Term.mem_freeNames_abs y x b).2 ⟨hy, Ne.symm hxy⟩)
        ((s.isBound_eq_false_iff y).2 hbound) hkey

/-- In an acyclic environment, a definition that is taken up has not been taken up
since slack was last used. -/
theorem LedTo.definition (hacyclic : env.Acyclic) {seen : List Name} {x : Name}
    {d : Term} {s : Scope} (h : env.LedTo seen (.var x) s) (hbound : s.isBound x = false)
    (hdef : env.get? x = some d) :
    env.LedTo (x :: seen) d s ∧ env.visits (x :: seen) s < env.visits seen s := by
  have hdefined : (env.get? x).isSome = true := by
    rw [hdef]
    rfl
  have hpath : ∀ z ∈ seen, TransGen env.Follows z x := fun z hz =>
    h z hz x (by simp) hbound ((env.mem_keys_iff x).2 hdefined)
  have hfresh : x ∉ seen := fun hmem => acyclic_iff.1 hacyclic x (hpath x hmem)
  constructor
  · intro z hz y hy _ _
    have hxy : env.Follows x y := ⟨d, hdef, hy⟩
    rcases List.mem_cons.1 hz with rfl | hz
    · exact .single hxy
    · exact (hpath z hz).tail hxy
  · exact Nat.add_lt_add_left (env.unseen_cons_lt hfresh hdefined) _

/-! ## The levels are enough -/

/-- **In an acyclic environment unfolding ends in every scope**, also in one with
negative counts. -/
theorem calledBy_acc (hacyclic : env.Acyclic) (t : Term) (s : Scope) :
    Acc env.CalledBy (t, s) := by
  have hall : ∀ n seen t s, env.LedTo seen t s → env.visits seen s < n →
      Acc env.CalledBy (t, s) := by
    intro n
    induction n with
    | zero => exact fun _ _ _ _ hlt => absurd hlt (Nat.not_lt_zero _)
    | succ n ih =>
        intro seen t
        induction t generalizing seen with
        | var x =>
            intro s hled hlt
            refine Acc.intro _ fun call hcall => ?_
            cases hcall with
            | definition hbound hdef =>
                obtain ⟨hled', hfewer⟩ := hled.definition hacyclic hbound hdef
                exact ih _ _ _ hled' (by omega)
        | abs x b ihb =>
            intro s hled hlt
            obtain ⟨seen', hled', hle⟩ := hled.abs
            refine Acc.intro _ fun call hcall => ?_
            cases hcall with
            | body => exact ihb seen' _ hled' (by omega)
        | app f a ihf iha =>
            intro s hled hlt
            refine Acc.intro _ fun call hcall => ?_
            cases hcall with
            | fn => exact ihf seen _ hled.fn hlt
            | arg hcount =>
                refine iha seen _ (hled.arg.congr hcount) ?_
                rwa [env.visits_congr seen hcount]
  exact hall _ [] t s (env.ledTo_nil t s) (Nat.lt_succ_self _)

/-- Two numbers of levels that are both larger than the number of definitions that
can be taken up one inside another come to the same. -/
theorem expandWithin_congr (hacyclic : env.Acyclic) {depth depth' : Nat}
    {seen : List Name} {t : Term} {s : Scope} (hled : env.LedTo seen t s)
    (hdepth : env.visits seen s < depth) (hdepth' : env.visits seen s < depth') :
    env.expandWithin depth t s = env.expandWithin depth' t s := by
  induction depth generalizing depth' seen t s with
  | zero => exact absurd hdepth (Nat.not_lt_zero _)
  | succ depth ih =>
      obtain ⟨depth', rfl⟩ := Nat.exists_eq_succ_of_ne_zero (Nat.ne_zero_of_lt hdepth')
      induction t generalizing seen s with
      | var x =>
          rw [expandWithin_var, expandWithin_var]
          cases hbound : s.isBound x with
          | true => rfl
          | false =>
              cases hdef : env.get? x with
              | none => rfl
              | some d =>
                  obtain ⟨hled', hfewer⟩ := hled.definition hacyclic hbound hdef
                  exact ih hled' (by omega) (by omega)
      | abs x b ihb =>
          obtain ⟨seen', hled', hle⟩ := hled.abs
          have hbody := ihb hled' (by omega) (by omega)
          rw [expandWithin_abs, expandWithin_abs, hbody]
      | app f a ihf iha =>
          have hf := ihf hled.fn hdepth hdepth'
          have hcount := count_expandWithin env (depth + 1) f s
          have hvisits := env.visits_congr seen hcount
          have ha := iha (hled.arg.congr hcount) (by omega) (by omega)
          rw [expandWithin_app, ha, hf, ← expandWithin_app]

/-- **The levels are enough in every scope**: more of them change nothing. -/
theorem expandWithin_of_levels_le (hacyclic : env.Acyclic) {depth : Nat} {s : Scope}
    (hdepth : env.levels s ≤ depth) (t : Term) :
    env.expandWithin depth t s = env.expandWithin (env.levels s) t s := by
  have hvisits : env.visits [] s < env.levels s := by
    have hunseen := env.unseen_le_size []
    unfold visits levels
    rw [Nat.mul_add]
    omega
  exact expandWithin_congr hacyclic (env.ledTo_nil t s) (by omega) hvisits

end Environment

end UntypedLambda
