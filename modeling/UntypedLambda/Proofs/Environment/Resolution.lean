import UntypedLambda.Proofs.Environment.Unfolding

/-!
# Unfolding comes to an end and leaves no defined name

The recursion of unfolding leaves the term: at an occurrence of a defined name
it goes on with the definition, which may be larger than the term it came
from, and it does so below the abstractions of the occurrence.  `CalledBy`
lists the calls that one call makes.  In an acyclic environment no chain of
them goes on forever, because unfolding to the end is described by a finite
derivation (`Unfolds`) and each call is a smaller derivation.

Afterwards no defined name is free below the abstractions around the term, as
the analysis of free names in a scope sees it, so that unfolding again finds
nothing to do.

## Main results

* `mem_freeNamesWithin`: which names are free in a term below a scope.
* `Unfolds.acc`: what can be unfolded to the end is unfolded by finitely many
  calls.
* `expand_resolves`: unfolding ends, leaves no defined name free and is
  idempotent.
-/

namespace UntypedLambda

/-! ## Free names in a scope -/

namespace Scope

theorem mem_names_iff (s : Scope) (x : Name) : x ∈ s.names ↔ 0 < s.count x := by
  have hentry : x ∈ s.names ↔ ∃ n, s.counts.get? x = some n ∧ 0 < n := by
    simp [names, Table.get?_eq_some_iff, and_comm]
  rw [hentry, count]
  cases s.counts.get? x <;> simp

theorem count_nonneg {s : Scope} (h : ∀ e ∈ s.counts.entries, 0 ≤ e.2)
    (x : Name) : 0 ≤ s.count x := by
  unfold count
  cases hx : s.counts.get? x with
  | none => exact Int.le_refl 0
  | some n => exact h (x, n) ((s.counts.get?_eq_some_iff x n).1 hx)

/-- A scope without negative counts binds the names it lists. -/
theorem binds_names {s : Scope} (hnonneg : ∀ x, 0 ≤ s.count x) :
    s.Binds s.names :=
  ⟨hnonneg, fun x => (s.mem_names_iff x).symm⟩

end Scope

namespace Term

theorem freeNamesWithin_var (x : Name) (s : Scope) :
    (var x).freeNamesWithin s = (if s.isBound x = true then [] else [x], s) :=
  rfl

theorem freeNamesWithin_abs (x : Name) (b : Term) (s : Scope) :
    (abs x b).freeNamesWithin s =
      ((b.freeNamesWithin (s.enter x)).1,
        (b.freeNamesWithin (s.enter x)).2.leave x (s.count x)) := rfl

theorem freeNamesWithin_app (f a : Term) (s : Scope) :
    (app f a).freeNamesWithin s =
      ((f.freeNamesWithin s).1 ++
          (a.freeNamesWithin (f.freeNamesWithin s).2).1,
        (a.freeNamesWithin (f.freeNamesWithin s).2).2) := rfl

/-- The analysis gives every name the count it had. -/
theorem count_freeNamesWithin (t : Term) (s : Scope) :
    (t.freeNamesWithin s).2.count = s.count :=
  Walk.respects_counts.freeNames t s

/-- Below a scope those free names of a term are free that it does not bind. -/
theorem mem_freeNamesWithin {s : Scope} {ctx : List Name} (hbinds : s.Binds ctx)
    (t : Term) (y : Name) :
    y ∈ (t.freeNamesWithin s).1 ↔ y ∈ t.freeNames ∧ y ∉ ctx := by
  induction t generalizing s ctx with
  | var x =>
      rw [freeNamesWithin_var, mem_freeNames_var]
      by_cases hx : x ∈ ctx
      · rw [if_pos ((hbinds.isBound_iff x).2 hx)]
        refine iff_of_false List.not_mem_nil fun h => h.2 ?_
        rw [h.1]
        exact hx
      · rw [if_neg (mt (hbinds.isBound_iff x).1 hx), List.mem_singleton]
        refine ⟨fun h => ⟨h, ?_⟩, And.left⟩
        rw [h]
        exact hx
  | abs x b ih =>
      rw [freeNamesWithin_abs, ih (hbinds.enter x), mem_freeNames_abs,
        List.mem_cons, not_or, and_assoc]
  | app f a ihf iha =>
      have hafter := hbinds.of_count_eq (count_freeNamesWithin f s)
      rw [freeNamesWithin_app, List.mem_append, ihf hbinds, iha hafter,
        mem_freeNames_app, or_and_right]

end Term

namespace Environment

variable {env : Environment}

/-! ## The calls of the recursion -/

/-- What unfolding a term in a scope calls itself for: the parts of the term, and
the definition of an unbound occurrence.  The argument of an application comes
after its function, in a scope with the same counts. -/
inductive CalledBy (env : Environment) : Term × Scope → Term × Scope → Prop where
  | definition {x : Name} {d : Term} {s : Scope} (hx : s.isBound x = false)
      (hdef : env.get? x = some d) : CalledBy env (d, s) (.var x, s)
  | body {x : Name} {b : Term} {s : Scope} :
      CalledBy env (b, s.enter x) (.abs x b, s)
  | fn {f a : Term} {s : Scope} : CalledBy env (f, s) (.app f a, s)
  | arg {f a : Term} {s s' : Scope} (hcount : s'.count = s.count) :
      CalledBy env (a, s') (.app f a, s)

/-- What can be unfolded to the end is unfolded by finitely many calls. -/
theorem Unfolds.acc {ctx : List Name} {t u : Term} (h : env.Unfolds ctx t u)
    {s : Scope} (hbinds : s.Binds ctx) : Acc env.CalledBy (t, s) := by
  induction h generalizing s with
  | @bound _ x hx =>
      refine Acc.intro _ fun call hcall => ?_
      cases hcall with
      | definition hfree =>
          rw [(hbinds.isBound_iff x).2 hx] at hfree
          cases hfree
  | undefined hnone =>
      refine Acc.intro _ fun call hcall => ?_
      cases hcall with
      | definition _ hdef =>
          rw [hnone] at hdef
          cases hdef
  | defined _ hsome _ ih =>
      refine Acc.intro _ fun call hcall => ?_
      cases hcall with
      | definition _ hdef =>
          rw [hsome, Option.some.injEq] at hdef
          rw [← hdef]
          exact ih hbinds
  | @abs _ x _ _ _ ih =>
      refine Acc.intro _ fun call hcall => ?_
      cases hcall with
      | body => exact ih (hbinds.enter x)
  | app _ _ ihf iha =>
      refine Acc.intro _ fun call hcall => ?_
      cases hcall with
      | fn => exact ihf hbinds
      | arg hcount => exact iha (hbinds.of_count_eq hcount)

/-! ## What is left -/

/-- **Unfolding ends and resolves everything.**  In an acyclic environment and
a scope without negative counts, the recursion makes no infinite chain of
calls.  More levels than there are definitions change nothing: it gets to the
end before.  It gives the counts of the scope back.  Of what is left, no
defined name is free in that scope, and it stands for itself there. -/
theorem expand_resolves (hacyclic : env.Acyclic) {s : Scope}
    (hnonneg : ∀ x, 0 ≤ s.count x) (t : Term) :
    let u := (env.expand t s).1
    Acc env.CalledBy (t, s) ∧ env.Unfolds s.names t u ∧
      (∀ depth, env.size < depth → (env.expandWithin depth t s).1 = u) ∧
      (env.expand t s).2.count = s.count ∧
      ∀ s', s'.count = s.count →
        (∀ x ∈ env.keys, x ∉ (u.freeNamesWithin s').1) ∧
          (env.expand u s').1 = u := by
  intro u
  have hbinds : s.Binds s.names := Scope.binds_names hnonneg
  have hunfolds : env.Unfolds s.names t u := unfolds_expand hacyclic hbinds t
  refine ⟨hunfolds.acc hbinds, hunfolds, ?_, count_expand env t s, ?_⟩
  · intro depth hdepth
    have hlevels : env.unseen [] < depth :=
      Nat.lt_of_le_of_lt (env.unseen_le_size []) hdepth
    exact (unfolds_expandWithin hacyclic hbinds (by simp) hlevels).unique hunfolds
  · intro s' hcount
    have hbinds' : s'.Binds s.names := hbinds.of_count_eq hcount
    have hnone : ∀ x ∈ u.freeNames, x ∉ s.names → env.get? x = none :=
      fun x hx hctx => hunfolds.undefined_of_mem hx hctx
    constructor
    · intro x hkey hx
      obtain ⟨hfree, hctx⟩ := (Term.mem_freeNamesWithin hbinds' u x).1 hx
      rw [Table.mem_keys_iff, hnone x hfree hctx] at hkey
      cases hkey
    · have hagain : env.Unfolds s.names u (env.expand u s').1 :=
        unfolds_expand hacyclic hbinds' u
      exact hagain.unique (.refl hnone)

/-- An abstraction of the term blocks `m` in one of the two uses of `k`, and the
scope blocks `n` everywhere. -/
theorem expand_resolves_blocked :
    let env : Environment :=
      ((Table.insert ∅ "k" (.abs "p" (.app (.var "m") (.var "p")))).insert "m"
        (.var "q")).insert "n" (.var "k")
    let s := Scope.ofCounts [("n", 1), ("k", 0)]
    let t := Term.app (.var "k") (.abs "m" (.app (.var "k") (.var "n")))
    let u := Term.app (.abs "p" (.app (.var "q") (.var "p")))
      (.abs "m" (.app (.abs "p" (.app (.var "m") (.var "p"))) (.var "n")))
    env.Acyclic ∧ (∀ x, 0 ≤ s.count x) ∧ Acc env.CalledBy (t, s) ∧
      (env.expand t s).1 = u ∧ (∀ x ∈ env.keys, x ∉ (u.freeNamesWithin s).1) ∧
      (env.expand u s).1 = u := by
  intro env s t u
  have hk : reaches ∅ "k" (.abs "p" (.app (.var "m") (.var "p"))) = false := by
    cbv
  have hm : reaches
      (Table.insert ∅ "k" (.abs "p" (.app (.var "m") (.var "p")))) "m"
      (.var "q") = false := by cbv
  have hn : reaches
      ((Table.insert ∅ "k" (.abs "p" (.app (.var "m") (.var "p")))).insert "m"
        (.var "q")) "n" (.var "k") = false := by cbv
  have hacyclic : env.Acyclic :=
    acyclic_insert_of_reaches (acyclic_insert_of_reaches
      (acyclic_insert_of_reaches acyclic_empty hk) hm) hn
  have hnonneg : ∀ x, 0 ≤ s.count x := Scope.count_nonneg (by decide)
  have hresult : (env.expand t s).1 = u := by decide +kernel
  obtain ⟨hacc, -, -, -, hleft⟩ := expand_resolves hacyclic hnonneg t
  have hleft' := hleft s rfl
  rw [hresult] at hleft'
  exact ⟨hacyclic, hnonneg, hacc, hresult, hleft'⟩

end Environment

end UntypedLambda
