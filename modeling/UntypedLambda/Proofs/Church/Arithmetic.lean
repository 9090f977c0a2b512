import UntypedLambda.Church
import UntypedLambda.Grammar.Parser
import UntypedLambda.Proofs.Reduction.Trace

/-!
# Arithmetic with numerals

A numeral applies its first argument to the second one as often as it says.  The
successor, the sum and the product are written with that, and are evaluated in a
number of steps that is known beforehand.

A numeral has no free names, so it is put in place of a parameter as it stands.
When a numeral is applied, the parameters of its own are the only names that can
get in the way.  The outer one goes away in the contraction, and the inner one is
kept or given a fresh name that is not free in the argument (`contract_numeral`).
The next contraction takes the inner one away as well (`stepsIn_numeral`).  In a
product the inner parameter of the first numeral stays, and as it is not free in
the argument, it is not the parameter of the product.

## Main results

* `contract_numeral`: a numeral with its first argument.
* `stepsIn_numeral`: a numeral with both arguments takes two steps.
* `stepsIn_successor`, `stepsIn_addition`, `stepsIn_multiplication`: the traces of
  the three operations.
* `evaluate_arithmetic`: evaluation computes with numbers.
-/

namespace UntypedLambda.Church

open Term (StepsIn abs app var)

/-! ## Repeated application -/

/-- The term `g (g (… (g a)))` with `n` applications of `g`. -/
def applied (g a : Term) : Nat → Term
  | 0 => a
  | n + 1 => app g (applied g a n)

theorem iterate_eq_applied (f x : Name) (n : Nat) :
    iterate f x n = applied (var f) (var x) n := by
  induction n with
  | zero => rfl
  | succ n ih => rw [iterate, ih, applied]

theorem numeral_eq_applied (n : Nat) (f x : Name) :
    numeral n f x = abs f (abs x (applied (var f) (var x) n)) := by
  rw [numeral, iterate_eq_applied]

theorem applied_applied (g a : Term) (m n : Nat) :
    applied g (applied g a n) m = applied g a (m + n) := by
  induction m with
  | zero => rw [Nat.zero_add, applied]
  | succ m ih => rw [Nat.succ_add, applied, ih, applied]

theorem rename_applied (old new : Name) (g a : Term) (n : Nat) :
    (applied g a n).rename old new =
      applied (g.rename old new) (a.rename old new) n := by
  induction n with
  | zero => rfl
  | succ n ih => rw [applied, Term.rename, ih, applied]

theorem subst_applied (x : Name) (r g a : Term) (n : Nat) :
    Term.subst x r (applied g a n) =
      applied (Term.subst x r g) (Term.subst x r a) n := by
  induction n with
  | zero => rfl
  | succ n ih => rw [applied, Term.subst_app, ih, applied]

/-- Steps are made in the innermost argument. -/
theorem stepsIn_applied {s : Scope} {k : Nat} {a c : Term} (h : StepsIn s k a c)
    (g : Name) (n : Nat) :
    StepsIn s k (applied (var g) a n) (applied (var g) c n) := by
  induction n with
  | zero => exact h
  | succ n ih => exact ih.arg g

/-! ## Numerals -/

theorem mem_freeNames_iterate {f x y : Name} {n : Nat}
    (hy : y ∈ (iterate f x n).freeNames) : y = f ∨ y = x := by
  induction n with
  | zero => exact Or.inr (by simpa [iterate] using hy)
  | succ n ih =>
      rw [iterate, Term.mem_freeNames_app, Term.mem_freeNames_var] at hy
      exact hy.elim Or.inl ih

theorem freeNames_numeral (n : Nat) (f x : Name) :
    (numeral n f x).freeNames = [] := by
  rw [List.eq_nil_iff_forall_not_mem]
  intro y hy
  simp only [numeral, Term.mem_freeNames_abs] at hy
  exact (mem_freeNames_iterate hy.1.1).elim hy.2 hy.1.2

theorem not_hasRedex_iterate (f x : Name) (n : Nat) :
    ¬ (iterate f x n).HasRedex := by
  induction n with
  | zero => exact Term.not_hasRedex_var x
  | succ n ih =>
      rw [iterate, Term.hasRedex_app_iff]
      simp [Term.not_hasRedex_var, ih]

theorem stepTop_numeral (n : Nat) (f x : Name) :
    (numeral n f x).stepTop = none := by
  rw [Term.stepTop_eq_none_iff, numeral, Term.hasRedex_abs_iff,
    Term.hasRedex_abs_iff]
  exact not_hasRedex_iterate f x n

/-! ## Closed arguments -/

/-- Nothing happens where a name without free occurrences is replaced by a term
without free names. -/
theorem subst_of_not_mem {x : Name} {r t : Term} (hr : r.freeNames = [])
    (hx : x ∉ t.freeNames) : Term.subst x r t = t := by
  fun_induction Term.subst x r t with
  | case1 => simp at hx
  | case2 => rfl
  | case3 => rfl
  | case4 y b hy hmem =>
      rw [hr] at hmem
      cases hmem
  | case5 y b hy hmem ih =>
      rw [Term.mem_freeNames_abs, not_and_not_right] at hx
      rw [ih fun hb => hy (hx hb).symm]
  | case6 f a ihf iha =>
      rw [Term.mem_freeNames_app, not_or] at hx
      rw [ihf hx.1, iha hx.2]

theorem subst_numeral (y : Name) {r : Term} (hr : r.freeNames = []) (n : Nat)
    (f x : Name) : Term.subst y r (numeral n f x) = numeral n f x :=
  subst_of_not_mem hr (by simp [freeNames_numeral])

theorem contract_closed {a : Term} (ha : a.freeNames = []) (x : Name) (b : Term)
    (s : Scope) : Term.contract x b a s = Term.subst x a b := by
  rw [Term.contract, ha, if_neg List.not_mem_nil]

/-! ## Numerals with arguments -/

/-- In the body of a numeral a term takes the place of the outer parameter; the
inner one is not free in it. -/
theorem subst_body {f x : Name} (hfx : f ≠ x) (a : Term) (n : Nat) :
    ∃ y ∉ a.freeNames,
      Term.subst f a (abs x (applied (var f) (var x) n)) =
        abs y (applied a (var y) n) := by
  rw [Term.subst_abs, if_neg hfx.symm]
  by_cases hx : x ∈ a.freeNames
  · obtain ⟨hfree, -, hf⟩ :=
      Term.freshParam_spec x (applied (var f) (var x) n) f a.freeNames
    refine ⟨_, hfree, ?_⟩
    rw [if_pos hx, rename_applied, subst_applied]
    simp [Term.rename, Term.subst_var, hfx, hf]
  · refine ⟨x, hx, ?_⟩
    rw [if_neg hx, subst_applied]
    simp [Term.subst_var, hfx.symm]

/-- **A numeral with its first argument** is an abstraction that applies this, over
a name that is not free in it. -/
theorem contract_numeral {f x : Name} (hfx : f ≠ x) (n : Nat) (a : Term)
    (s : Scope) :
    ∃ y ∉ a.freeNames,
      Term.contract f (abs x (iterate f x n)) a s = abs y (applied a (var y) n) := by
  rw [iterate_eq_applied, Term.contract]
  split
  · -- the outer parameter is renamed first, to a name that the body does not use
    have hparam :=
      Term.redexParam_spec f (abs x (applied (var f) (var x) n)) a s.names
    dsimp only
    generalize Term.redexParam f (abs x (applied (var f) (var x) n)) a s.names = z
      at hparam ⊢
    rw [Term.names, List.mem_cons, not_or] at hparam
    have hrename : (abs x (applied (var f) (var x) n)).rename f z =
        abs x (applied (var z) (var x) n) := by
      simp [Term.rename, rename_applied, hfx.symm]
    rw [hrename]
    exact subst_body hparam.1 a n
  · exact subst_body hfx a n

/-- The abstraction that a numeral has become, with its second argument. -/
theorem contract_applied {g y : Name} (hgy : g ≠ y) (n : Nat) (b : Term)
    (s : Scope) :
    Term.contract y (applied (var g) (var y) n) b s = applied (var g) b n := by
  rw [Term.contract]
  split
  · have hparam := Term.redexParam_spec y (applied (var g) (var y) n) b s.names
    dsimp only
    generalize Term.redexParam y (applied (var g) (var y) n) b s.names = z
      at hparam ⊢
    rw [rename_applied, subst_applied]
    cases n with
    | zero => simp [applied, Term.rename, Term.subst_var]
    | succ n =>
        -- only here does the body mention the name that is applied
        have hgz : g ≠ z := by
          rintro rfl
          simp [applied, Term.names] at hparam
        simp [Term.rename, Term.subst_var, hgy, hgz]
  · rw [subst_applied]
    simp [Term.subst_var, hgy]

/-- **A numeral with both arguments** applies the first one to the second one, in
two steps. -/
theorem stepsIn_numeral {f x : Name} (hfx : f ≠ x) (n : Nat) (g : Name) (b : Term)
    (s : Scope) :
    StepsIn s 2 (app (app (numeral n f x) (var g)) b) (applied (var g) b n) := by
  obtain ⟨y, hy, hcontract⟩ := contract_numeral hfx n (var g) s
  have hgy : g ≠ y := by simpa [eq_comm] using hy
  have hfirst : StepsIn s 1 (app (app (numeral n f x) (var g)) b)
      (app (abs y (applied (var g) (var y) n)) b) := by
    rw [← hcontract]
    exact .redex_fn f _ _ b
  have hsecond : StepsIn s 1 (app (abs y (applied (var g) (var y) n)) b)
      (applied (var g) b n) := by
    rw [← contract_applied hgy n b s]
    exact .redex y _ b
  exact hfirst.trans hsecond

/-- Repeated application of a numeral with its first argument multiplies. -/
theorem stepsIn_applied_numeral {f x : Name} (hfx : f ≠ x) (n : Nat) (g : Name)
    (b : Term) (s : Scope) (m : Nat) :
    StepsIn s (2 * m) (applied (app (numeral n f x) (var g)) b m)
      (applied (var g) b (m * n)) := by
  induction m with
  | zero =>
      rw [Nat.zero_mul]
      exact .refl b
  | succ m ih =>
      have hfirst := stepsIn_numeral hfx n g
        (applied (app (numeral n f x) (var g)) b m) s
      have hrest := hfirst.trans (stepsIn_applied ih g n)
      have hcount : 2 + 2 * m = 2 * (m + 1) := by omega
      have hproduct : n + m * n = (m + 1) * n := by
        rw [Nat.succ_mul, Nat.add_comm]
      rw [applied_applied, hcount, hproduct] at hrest
      exact hrest

/-! ## The three operations -/

/-- The term `λx.λs z.s (x s z)`. -/
def successor : Term :=
  abs "x" (abs "s" (abs "z"
    (app (var "s") (app (app (var "x") (var "s")) (var "z")))))

/-- The term `λx y.λs z.x s (y s z)`. -/
def addition : Term :=
  abs "x" (abs "y" (abs "s" (abs "z"
    (app (app (var "x") (var "s")) (app (app (var "y") (var "s")) (var "z"))))))

/-- The term `λx y.λs.x (y s)`. -/
def multiplication : Term :=
  abs "x" (abs "y" (abs "s" (app (var "x") (app (var "y") (var "s")))))

example : Grammar.parse "λx.λs z.s (x s z)" = .ok successor ∧
    Grammar.parse "λx y.λs z.x s (y s z)" = .ok addition ∧
    Grammar.parse "λx y.λs.x (y s)" = .ok multiplication := by
  decide +kernel

/-- The successor takes the two steps of its numeral and one before. -/
theorem stepsIn_successor {f x : Name} (hfx : f ≠ x) (n : Nat) :
    StepsIn ∅ 3 (app successor (numeral n f x)) (numeral (n + 1) "s" "z") := by
  have hN := freeNames_numeral n f x
  have hfirst : StepsIn ∅ 1 (app successor (numeral n f x)) (abs "s" (abs "z"
      (app (var "s") (app (app (numeral n f x) (var "s")) (var "z"))))) := by
    refine .single ?_
    rw [successor, Term.step_redex, contract_closed hN]
    simp [Term.subst_abs, Term.subst_app, Term.subst_var, hN]
  have hbody : ∀ s, StepsIn s 2
      (app (var "s") (app (app (numeral n f x) (var "s")) (var "z")))
      (applied (var "s") (var "z") (n + 1)) :=
    fun s => (stepsIn_numeral hfx n "s" (var "z") s).arg "s"
  rw [numeral_eq_applied (n + 1)]
  exact hfirst.trans (.abs (.abs (hbody _)))

/-- Two terms without free names are put in place of two parameters. -/
theorem stepsIn_closed_closed {M N : Term} (hM : M.freeNames = [])
    (hN : N.freeNames = []) {x y : Name} (hxy : x ≠ y) (b : Term) :
    StepsIn ∅ 2 (app (app (abs x (abs y b)) M) N)
      (Term.subst y N (Term.subst x M b)) := by
  have hfirst : StepsIn ∅ 1 (app (app (abs x (abs y b)) M) N)
      (app (abs y (Term.subst x M b)) N) := by
    have hinner : Term.contract x (abs y b) M ∅ = abs y (Term.subst x M b) := by
      rw [contract_closed hM, Term.subst_abs, if_neg hxy.symm, hM,
        if_neg List.not_mem_nil]
    rw [← hinner]
    exact .redex_fn x (abs y b) M N
  have hsecond : StepsIn ∅ 1 (app (abs y (Term.subst x M b)) N)
      (Term.subst y N (Term.subst x M b)) := by
    rw [← contract_closed hN y _ ∅]
    exact .redex y _ N
  exact hfirst.trans hsecond

/-- The sum takes the two steps of each of its numerals and two before. -/
theorem stepsIn_addition {f x : Name} (hfx : f ≠ x) (m n : Nat) :
    StepsIn ∅ 6 (app (app addition (numeral m f x)) (numeral n f x))
      (numeral (m + n) "s" "z") := by
  have hM := freeNames_numeral m f x
  have hN := freeNames_numeral n f x
  have hkeep := subst_numeral "y" hN m f x
  have hfirst : StepsIn ∅ 2 (app (app addition (numeral m f x)) (numeral n f x))
      (abs "s" (abs "z" (app (app (numeral m f x) (var "s"))
        (app (app (numeral n f x) (var "s")) (var "z"))))) := by
    have hargs := stepsIn_closed_closed hM hN (by decide : "x" ≠ "y") (abs "s" (abs "z"
      (app (app (var "x") (var "s")) (app (app (var "y") (var "s")) (var "z")))))
    simpa [addition, Term.subst_abs, Term.subst_app, Term.subst_var, hM, hN, hkeep]
      using hargs
  have hbody : ∀ s, StepsIn s 4 (app (app (numeral m f x) (var "s"))
        (app (app (numeral n f x) (var "s")) (var "z")))
      (applied (var "s") (var "z") (m + n)) := by
    intro s
    have hleft := stepsIn_numeral hfx m "s"
      (app (app (numeral n f x) (var "s")) (var "z")) s
    have hright := stepsIn_numeral hfx n "s" (var "z") s
    rw [← applied_applied]
    exact hleft.trans (stepsIn_applied hright "s" m)
  rw [numeral_eq_applied (m + n)]
  exact hfirst.trans (.abs (.abs (hbody _)))

/-- The product takes two steps for each application of its first numeral, one for
this numeral and two before. -/
theorem stepsIn_multiplication {f x : Name} (hfx : f ≠ x) (m n : Nat) :
    ∃ y, "s" ≠ y ∧
      StepsIn ∅ (3 + 2 * m)
        (app (app multiplication (numeral m f x)) (numeral n f x))
        (numeral (m * n) "s" y) := by
  have hM := freeNames_numeral m f x
  have hN := freeNames_numeral n f x
  have hkeep := subst_numeral "y" hN m f x
  have hfirst : StepsIn ∅ 2 (app (app multiplication (numeral m f x)) (numeral n f x))
      (abs "s" (app (numeral m f x) (app (numeral n f x) (var "s")))) := by
    have hargs := stepsIn_closed_closed hM hN (by decide : "x" ≠ "y")
      (abs "s" (app (var "x") (app (var "y") (var "s"))))
    simpa [multiplication, Term.subst_abs, Term.subst_app, Term.subst_var, hM, hN, hkeep]
      using hargs
  obtain ⟨y, hy, hcontract⟩ := contract_numeral hfx m
    (app (numeral n f x) (var "s")) (Scope.enter ∅ "s")
  have hsy : "s" ≠ y := by
    rw [Term.mem_freeNames_app, Term.mem_freeNames_var, hN, not_or] at hy
    exact Ne.symm hy.2
  have hsecond : StepsIn (Scope.enter ∅ "s") 1
      (app (numeral m f x) (app (numeral n f x) (var "s")))
      (abs y (applied (app (numeral n f x) (var "s")) (var y) m)) := by
    rw [← hcontract]
    exact .redex f _ _
  have hbody : ∀ s, StepsIn s (2 * m)
      (applied (app (numeral n f x) (var "s")) (var y) m)
      (applied (var "s") (var y) (m * n)) :=
    fun s => stepsIn_applied_numeral hfx n "s" (var y) s m
  refine ⟨y, hsy, ?_⟩
  rw [numeral_eq_applied (m * n), show 3 + 2 * m = 2 + (1 + 2 * m) by omega]
  exact hfirst.trans (.abs (hsecond.trans (.abs (hbody _))))

/-! ## Evaluation -/

/-- Under any limit that lets it make so many steps, evaluation makes these and ends
with a normal form that encodes the number. -/
def Computes (t : Term) (value steps : Nat) : Prop :=
  ∀ limit : Option Int, steps ≤ limit.getD Reducer.defaultPasses →
    value? (Environment.evaluate ∅ t limit) = some value ∧
      (Environment.reduce ∅ t limit).passes = steps ∧
      (Environment.reduce ∅ t limit).normal = true

theorem computes_of_stepsIn {t : Term} {k n : Nat} {f x : Name} (hfx : f ≠ x)
    (h : StepsIn ∅ k t (numeral n f x)) : Computes t n k := by
  intro limit hlimit
  have hreduce := Environment.reduce_of_stepsIn h (stepTop_numeral n f x) hlimit
  rw [Environment.evaluate, hreduce]
  exact ⟨value?_numeral n hfx, rfl, rfl⟩

/-- **Evaluation computes with numbers.**  The successor of a numeral takes three
steps, a sum six, and a product two for each application in the first numeral and
three more, whatever two names the numerals are written with.  So numbers of any
size can be added under the usual limit. -/
theorem evaluate_arithmetic (m n : Nat) {f x : Name} (hfx : f ≠ x) :
    let M := numeral m f x
    let N := numeral n f x
    Computes (app successor N) (n + 1) 3 ∧
      Computes (app (app addition M) N) (m + n) 6 ∧
      Computes (app (app multiplication M) N) (m * n) (3 + 2 * m) := by
  intro M N
  have hsz : "s" ≠ "z" := by decide
  obtain ⟨y, hsy, hproduct⟩ := stepsIn_multiplication hfx m n
  exact ⟨computes_of_stepsIn hsz (stepsIn_successor hfx n),
    computes_of_stepsIn hsz (stepsIn_addition hfx m n),
    computes_of_stepsIn hsy hproduct⟩

/-- The inner parameter of the numerals is that of the product, and the outer one
is what the sum is taken with. -/
theorem evaluate_arithmetic_shared :
    let M := numeral 2 "z" "s"
    let N := numeral 3 "z" "s"
    "z" ≠ "s" ∧
      value? (Environment.evaluate ∅ (app successor N) (some 3)) = some 4 ∧
      value? (Environment.evaluate ∅ (app (app addition M) N) none) = some 5 ∧
      value? (Environment.evaluate ∅ (app (app multiplication M) N) (some 7)) =
        some 6 := by
  intro M N
  have hzs : "z" ≠ "s" := by decide
  obtain ⟨hsuccessor, haddition, hmultiplication⟩ := evaluate_arithmetic 2 3 hzs
  exact ⟨hzs, (hsuccessor (some 3) (by decide)).1, (haddition none (by decide)).1,
    (hmultiplication (some 7) (by decide)).1⟩

end UntypedLambda.Church
