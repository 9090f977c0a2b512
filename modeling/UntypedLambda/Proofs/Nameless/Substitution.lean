import Mathlib.Logic.Function.Basic
import UntypedLambda.Proofs.Nameless.Form
import UntypedLambda.Term.Substitution

/-!
# Substitution on nameless forms

Renaming and substitution change the reading of a term at one name: after
`subst x r` the name `x` stands for what `r` reads as (`readBy_subst`).  The
recursion of `subst` goes through renamed bodies, and `readBy_renameParam` is
what makes a renamed body as good as the original one: it reads the same below
its new parameter as the original below the old one, because the new parameter
does not occur in it.

## Main results

* `readBy_subst`: substitution never captures.
* `namelessWithin_subst`: the body of an abstraction with a term put for its
  parameter is the instantiation of its nameless form.
* `subst_replaces_free`: substitution replaces the free occurrences of a name
  and nothing else.
-/

namespace UntypedLambda.Term

open Nameless (resolve)

/-! ## Renaming and substitution change a reading at one name -/

open Function (update)

theorem readBelow_update_self (x : Name) (ρ : Name → Nameless)
    (v : Nameless) : readBelow x (update ρ x v) = readBelow x ρ := by
  funext y
  by_cases hyx : y = x
  · rw [hyx, readBelow_self, readBelow_self]
  · rw [readBelow_ne _ hyx, readBelow_ne _ hyx, Function.update_of_ne hyx]

theorem readBelow_update_ne {x y : Name} (ρ : Name → Nameless)
    (v : Nameless) (hxy : x ≠ y) :
    readBelow y (update ρ x v) = update (readBelow y ρ) x v.shift := by
  funext z
  by_cases hzx : z = x
  · rw [hzx, readBelow_ne _ hxy, Function.update_self, Function.update_self]
  · rw [Function.update_of_ne hzx]
    by_cases hzy : z = y
    · rw [hzy, readBelow_self, readBelow_self]
    · rw [readBelow_ne _ hzy, readBelow_ne _ hzy, Function.update_of_ne hzx]

/-- A renamed term reads as the original one, where the old name stands for
what the new one stood for. -/
theorem readBy_rename {old new : Name} {t : Term} (ρ : Name → Nameless)
    (hnew : new ∉ t.names) :
    (t.rename old new).readBy ρ = t.readBy (update ρ old (ρ new)) := by
  induction t generalizing ρ with
  | var x =>
      by_cases hx : x = old
      · rw [rename, if_pos hx, hx]
        exact (Function.update_self old (ρ new) ρ).symm
      · rw [rename, if_neg hx]
        exact (Function.update_of_ne hx (ρ new) ρ).symm
  | abs x b ih =>
      rw [names, List.mem_cons, not_or] at hnew
      by_cases hx : x = old
      · rw [rename, if_pos hx, hx]
        simp only [readBy, readBelow_update_self]
      · have hold : old ≠ x := fun h => hx h.symm
        rw [rename, if_neg hx]
        simp only [readBy, ih (readBelow x ρ) hnew.2,
          readBelow_update_ne ρ (ρ new) hold, readBelow_ne ρ hnew.1]
  | app f a ihf iha =>
      rw [names, List.mem_append, not_or] at hnew
      simp only [rename, readBy, ihf ρ hnew.1, iha ρ hnew.2]

/-- The body of an abstraction reads the same after its parameter has been
given a name that does not occur in it. -/
theorem readBy_renameParam {x z : Name} {b : Term} (ρ : Name → Nameless)
    (hz : z ∉ b.names) :
    (b.rename x z).readBy (readBelow z ρ) = b.readBy (readBelow x ρ) := by
  rw [readBy_rename _ hz, readBelow_self]
  refine readBy_congr fun y hy => ?_
  have hyz : y ≠ z := fun h => hz (h ▸ mem_names_of_mem_freeNames hy)
  by_cases hyx : y = x
  · rw [hyx, Function.update_self, readBelow_self]
  · rw [Function.update_of_ne hyx, readBelow_ne ρ hyz, readBelow_ne ρ hyx]

theorem freshParam_spec (y : Name) (b : Term) (x : Name) (free : List Name) :
    freshParam y b x free ∉ free ∧ freshParam y b x free ∉ b.names ∧
      freshParam y b x free ≠ x := by
  have hfresh := fresh_not_mem y (free ++ (abs y b).names ++ [x])
  have hparam : freshParam y b x free ∉ free ++ (abs y b).names ++ [x] := hfresh
  simp only [names, List.mem_append, List.mem_cons, List.not_mem_nil,
    or_false, not_or] at hparam
  exact ⟨hparam.1.1, hparam.1.2.2, hparam.2⟩

/-- **Substitution never captures.**  A term after a substitution reads as the
original one, where the replaced name stands for what the replacement reads
as. -/
theorem readBy_subst (x : Name) (r t : Term) (ρ : Name → Nameless) :
    (subst x r t).readBy ρ = t.readBy (update ρ x (r.readBy ρ)) := by
  fun_induction subst x r t generalizing ρ with
  | case1 => exact (Function.update_self x (r.readBy ρ) ρ).symm
  | case2 y hy => exact (Function.update_of_ne hy (r.readBy ρ) ρ).symm
  | case3 b => simp only [readBy, readBelow_update_self]
  | case4 y b hy hmem z ih =>
      obtain ⟨hzfree, hznames, hzx⟩ := freshParam_spec y b x r.freeNames
      refine congrArg Nameless.abs ?_
      rw [ih, readBy_below_of_not_mem ρ hzfree,
        ← readBelow_update_ne ρ (r.readBy ρ) (Ne.symm hzx),
        readBy_renameParam _ hznames]
  | case5 y b hy hmem ih =>
      refine congrArg Nameless.abs ?_
      rw [ih, readBy_below_of_not_mem ρ hmem,
        ← readBelow_update_ne ρ (r.readBy ρ) (Ne.symm hy)]
  | case6 f a ihf iha => simp only [readBy, ihf, iha]

/-- The body of an abstraction, with a term put for its parameter, is the
instantiation of its nameless form. -/
theorem namelessWithin_subst (ctx : List Name) (x : Name) (b a : Term) :
    (subst x a b).namelessWithin ctx =
      (b.namelessWithin (x :: ctx)).instantiate (a.namelessWithin ctx) := by
  simp only [namelessWithin_eq_readBy, readBy_subst, Nameless.instantiate,
    subst_readBy, ← readBelow_resolve]
  refine readBy_congr fun y _ => ?_
  by_cases hyx : y = x
  · rw [hyx, Function.update_self, readBelow_self]
    rfl
  · rw [Function.update_of_ne hyx, readBelow_ne _ hyx]
    exact (Nameless.instantiate_shift _ _).symm

theorem namelessWithin_renameParam {x z : Name} {b : Term} (ctx : List Name)
    (hz : z ∉ b.names) :
    (b.rename x z).namelessWithin (z :: ctx) = b.namelessWithin (x :: ctx) := by
  simp only [namelessWithin_eq_readBy, ← readBelow_resolve,
    readBy_renameParam _ hz]

/-- The nameless form after a substitution is the one before it, with the
nameless form of the replacement in place of the name. -/
theorem nameless_substitute (x : Name) (r t : Term) :
    (subst x r t).nameless =
      Nameless.replaceFree x r.nameless t.nameless := by
  have hclosed : ∀ y ξ, (Nameless.replaceFree x r.nameless (.free y)).rename ξ =
      Nameless.replaceFree x r.nameless (.free y) :=
    Nameless.rename_replaceFree_free fun ξ => rename_nameless ξ r
  rw [nameless_eq_readBy (subst x r t), readBy_subst,
    Nameless.replaceFree_eq_replaceNames, ← readBy_eq_replaceNames hclosed,
    ← nameless_eq_readBy r]
  refine readBy_congr fun y _ => ?_
  show _ = Nameless.replaceFree x r.nameless (.free y)
  by_cases hyx : y = x
  · rw [hyx, Function.update_self, Nameless.replaceFree, if_pos rfl]
  · rw [Function.update_of_ne hyx, Nameless.replaceFree, if_neg hyx]

theorem mem_freeNames_substitute (z x : Name) (r t : Term) :
    z ∈ (subst x r t).freeNames ↔
      (z ∈ t.freeNames ∧ z ≠ x) ∨ (x ∈ t.freeNames ∧ z ∈ r.freeNames) := by
  rw [← mem_freeNames_nameless, nameless_eq_readBy, readBy_subst,
    ← nameless_eq_readBy, mem_freeNames_readBy]
  constructor
  · intro h
    obtain ⟨y, hy, hz⟩ := h
    by_cases hyx : y = x
    · rw [hyx, Function.update_self, mem_freeNames_nameless] at hz
      exact Or.inr ⟨hyx ▸ hy, hz⟩
    · rw [Function.update_of_ne hyx, Nameless.freeNames,
        List.mem_singleton] at hz
      exact Or.inl ⟨hz ▸ hy, hz ▸ hyx⟩
  · intro h
    rcases h with ⟨hz, hzx⟩ | ⟨hx, hz⟩
    · refine ⟨z, hz, ?_⟩
      rw [Function.update_of_ne hzx, Nameless.freeNames, List.mem_singleton]
    · refine ⟨x, hx, ?_⟩
      rw [Function.update_self, mem_freeNames_nameless]
      exact hz

/-- **Substitution replaces the free occurrences of a name and nothing else**,
whatever names the term and the replacement share. -/
theorem subst_replaces_free (x : Name) (r t : Term) :
    (subst x r t).nameless =
        Nameless.replaceFree x r.nameless t.nameless ∧
      ∀ z, z ∈ (subst x r t).freeNames ↔
        (z ∈ t.freeNames ∧ z ≠ x) ∨ (x ∈ t.freeNames ∧ z ∈ r.freeNames) :=
  ⟨nameless_substitute x r t, fun z => mem_freeNames_substitute z x r t⟩

end UntypedLambda.Term
