import UntypedLambda.Proofs.Nameless.Form
import UntypedLambda.Term.Alpha

/-!
# Equality up to bound names on nameless forms

The comparison of two terms carries the pairs of parameters it has entered.
Each side of these pairs is a context, and an occurrence stands for the same
thing in both contexts exactly if the comparison accepts it.

So below no pairs the comparison is an equivalence because equality of nameless
forms is one.  That it is a congruence for abstractions needs a fact about
pairs: an abstraction over one name on both sides adds a pair of equal names,
outside of which all others are entered, and such a pair decides about an
occurrence as the names themselves would.

## Main results

* `sameBinding_iff`: what the comparison says of two occurrences.
* `alphaEqWithin_iff`, `alphaEq_iff`: two terms are equal up to bound names
  exactly if their nameless forms are equal.
* `alphaEqWithin_append_same`: an outermost pair of equal names does not matter.
* `alphaEqWithin_decides`: the comparison decides equality of nameless forms,
  and is an equivalence and a congruence.
-/

namespace UntypedLambda

open Nameless (resolve)

namespace Term

theorem shift_resolve_ne (ctx : List Name) (x : Name) :
    (resolve ctx x).shift ≠ .bound 0 := by
  unfold resolve
  split <;> simp [Nameless.shift, Nameless.rename]

theorem shift_resolve_inj {ctx ctx' : List Name} {x y : Name} :
    (resolve ctx x).shift = (resolve ctx' y).shift ↔
      resolve ctx x = resolve ctx' y := by
  unfold resolve
  split <;> split <;> simp [Nameless.shift, Nameless.rename]

/-- Two occurrences match below pairs of parameters exactly if they stand for
the same thing on their two sides. -/
theorem sameBinding_iff (x y : Name) (pairs : List (Name × Name)) :
    sameBinding x y pairs = true ↔
      resolve (pairs.map Prod.fst) x = resolve (pairs.map Prod.snd) y := by
  induction pairs with
  | nil => simp [sameBinding, resolve]
  | cons pq outer ih =>
      obtain ⟨p, q⟩ := pq
      simp only [sameBinding, List.map_cons, ← readBelow_resolve]
      by_cases hp : x = p <;> by_cases hq : y = q
      · subst hp hq
        simp [readBelow_self]
      · subst hp
        have hqy : q ≠ y := fun h => hq h.symm
        rw [readBelow_self, readBelow_ne _ hq]
        simp [hqy, (shift_resolve_ne _ y).symm]
      · subst hq
        have hpx : p ≠ x := fun h => hp h.symm
        rw [readBelow_self, readBelow_ne _ hp]
        simp [hpx, shift_resolve_ne _ x]
      · have hpx : p ≠ x := fun h => hp h.symm
        have hqy : q ≠ y := fun h => hq h.symm
        rw [readBelow_ne _ hp, readBelow_ne _ hq, shift_resolve_inj, ← ih]
        simp [hpx, hqy]

/-- Terms are equal up to bound names below pairs of parameters exactly if
their nameless forms below their sides of the pairs are equal. -/
theorem alphaEqWithin_iff (pairs : List (Name × Name)) (t u : Term) :
    alphaEqWithin pairs t u = true ↔
      t.namelessWithin (pairs.map Prod.fst) =
        u.namelessWithin (pairs.map Prod.snd) := by
  induction t generalizing pairs u with
  | var x =>
      cases u with
      | var y => exact sameBinding_iff x y pairs
      | abs y c => simp [alphaEqWithin, namelessWithin, Nameless.resolve_ne_abs]
      | app g c => simp [alphaEqWithin, namelessWithin, Nameless.resolve_ne_app]
  | abs x b ih =>
      cases u with
      | var y => simp [alphaEqWithin, namelessWithin, (Nameless.resolve_ne_abs _ y _).symm]
      | abs y c =>
          rw [alphaEqWithin, ih ((x, y) :: pairs) c]
          simp [namelessWithin]
      | app g c => simp [alphaEqWithin, namelessWithin]
  | app f a ihf iha =>
      cases u with
      | var y => simp [alphaEqWithin, namelessWithin, (Nameless.resolve_ne_app _ y _ _).symm]
      | abs y c => simp [alphaEqWithin, namelessWithin]
      | app g c =>
          rw [alphaEqWithin, Bool.and_eq_true, ihf pairs g, iha pairs c]
          simp [namelessWithin]

/-- Terms are equal up to bound names exactly if their nameless forms are
equal. -/
theorem alphaEq_iff (t u : Term) :
    t.alphaEq u = true ↔ t.nameless = u.nameless :=
  alphaEqWithin_iff [] t u

/-! ## Equivalence and congruence -/

theorem sameBinding_append_same (x y z : Name) (pairs : List (Name × Name)) :
    sameBinding x y (pairs ++ [(z, z)]) = sameBinding x y pairs := by
  induction pairs with
  | nil =>
      by_cases hxy : x = y
      · subst hxy
        simp [sameBinding]
      · -- a pair of equal names matches at most one of two different names
        have hboth : ¬ (z = x ∧ z = y) := fun h => hxy (h.1.symm.trans h.2)
        simp [sameBinding, hxy, hboth]
  | cons pq outer ih =>
      simp only [List.cons_append, sameBinding, ih]

/-- A pair of equal names outside of all other pairs does not matter. -/
theorem alphaEqWithin_append_same (pairs : List (Name × Name)) (z : Name)
    (t u : Term) :
    alphaEqWithin (pairs ++ [(z, z)]) t u = alphaEqWithin pairs t u := by
  induction t generalizing pairs u with
  | var x =>
      cases u with
      | var y => exact sameBinding_append_same x y z pairs
      | abs y c => rfl
      | app g c => rfl
  | abs x b ih =>
      cases u with
      | var y => rfl
      | abs y c => exact ih ((x, y) :: pairs) c
      | app g c => rfl
  | app f a ihf iha =>
      cases u with
      | var y => rfl
      | abs y c => rfl
      | app g c => simp only [alphaEqWithin, ihf, iha]

theorem alphaEq_abs (x : Name) (b c : Term) :
    (abs x b).alphaEq (abs x c) = b.alphaEq c :=
  alphaEqWithin_append_same [] x b c

theorem equivalence_alphaEq :
    Equivalence fun t u : Term => t.alphaEq u = true := by
  constructor
  · intro t
    exact (alphaEq_iff t t).2 rfl
  · intro t u htu
    rw [alphaEq_iff] at htu ⊢
    exact htu.symm
  · intro t u v htu huv
    rw [alphaEq_iff] at htu huv ⊢
    exact htu.trans huv

/-- **The comparison decides equality of nameless forms** below any pairs of
parameters, whichever names are repeated or shadowed on either side.  Below no
pairs it is an equivalence, and a congruence for abstraction and application
that also holds backwards. -/
theorem alphaEqWithin_decides :
    (∀ (pairs : List (Name × Name)) (t u : Term),
        alphaEqWithin pairs t u = true ↔
          t.namelessWithin (pairs.map Prod.fst) =
            u.namelessWithin (pairs.map Prod.snd)) ∧
      (Equivalence fun t u : Term => t.alphaEq u = true) ∧
      (∀ (x : Name) (b c : Term), (abs x b).alphaEq (abs x c) = b.alphaEq c) ∧
      ∀ f g a b : Term,
        (app f a).alphaEq (app g b) = (f.alphaEq g && a.alphaEq b) :=
  ⟨alphaEqWithin_iff, equivalence_alphaEq, alphaEq_abs, fun _ _ _ _ => rfl⟩

/-- The inner pair takes the name on the right for itself, so that the outer one
does not make the two names match. -/
example : alphaEqWithin [("x", "a"), ("y", "a")] (var "y") (var "a") = false := by
  decide

end Term

end UntypedLambda
