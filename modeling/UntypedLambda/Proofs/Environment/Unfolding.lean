import UntypedLambda.Proofs.Environment.Dependency
import UntypedLambda.Proofs.Scope.Walks

/-!
# Unfolding to the end

`Unfolds env ctx t u` says what unfolding comes to, with no bound on how far
it goes: below abstractions over `ctx`, every occurrence of a defined name that
nothing binds is replaced by its definition, and this is unfolded below the
same abstractions in turn.  There is at most one such `u`, and where a
definition leads back to itself there may be none.

The environment unfolds to a number of levels only and carries a scope through
the term.  In an acyclic environment the levels are enough: each of them takes
up a definition that has not been taken up on the way to it, so a run through
all levels would have met more definitions than there are.  The scope that a
traversal carries is the same after every part of a term as before it, and as
long as no count is negative it says exactly which names are bound
(`Scope.Binds`).

## Main results

* `count_expandWithin`, `count_expand`: unfolding gives every name the count it had.
* `unfolds_expand`: in an acyclic environment terms are unfolded to the end.
* `Unfolds.undefined_of_mem`: afterwards no defined name is free.
* `Unfolds.refl`: a term without free defined names stands for itself.
-/

namespace UntypedLambda

/-! ## Scopes and the names they bind -/

/-- A scope without negative counts that binds the names `ctx` and no others. -/
structure Scope.Binds (s : Scope) (ctx : List Name) : Prop where
  nonneg : ∀ x, 0 ≤ s.count x
  pos_iff : ∀ x, 0 < s.count x ↔ x ∈ ctx

namespace Scope

theorem binds_empty : Binds ∅ [] := by
  have hcount : ∀ x, (∅ : Scope).count x = 0 := fun _ => rfl
  constructor
  · intro x
    exact Int.le_of_eq (hcount x).symm
  · intro x
    simp [hcount]

theorem Binds.isBound_iff {s : Scope} {ctx : List Name} (h : s.Binds ctx)
    (x : Name) : s.isBound x = true ↔ x ∈ ctx := by
  rw [← h.pos_iff x, isBound, decide_eq_true_iff, gt_iff_lt]

theorem Binds.enter {s : Scope} {ctx : List Name} (h : s.Binds ctx)
    (x : Name) : (s.enter x).Binds (x :: ctx) := by
  constructor
  · intro y
    have hx := h.nonneg x
    have hy := h.nonneg y
    rw [count_enter]
    split <;> omega
  · intro y
    have hx := h.nonneg x
    rw [count_enter, List.mem_cons, ← h.pos_iff y]
    by_cases hxy : x = y
    · rw [if_pos hxy]
      exact iff_of_true (by omega) (Or.inl hxy.symm)
    · rw [if_neg hxy]
      simp [Ne.symm hxy]

/-- Which names are bound depends on the counts only. -/
theorem Binds.of_count_eq {s s' : Scope} {ctx : List Name} (h : s.Binds ctx)
    (hcount : s'.count = s.count) : s'.Binds ctx := by
  constructor
  · rw [hcount]
    exact h.nonneg
  · rw [hcount]
    exact h.pos_iff

end Scope

/-! ## The traversal -/

theorem Walk.mapUnbound_var {unfold : Name → Option (StateM Scope Term)} (x : Name)
    (s : Scope) :
    Walk.mapUnbound unfold (.var x) s =
      if s.isBound x = true then (.var x, s)
      else match unfold x with
        | none => (.var x, s)
        | some replacement => replacement s := by
  show (if s.isBound x = true then _ else _ : StateM Scope Term) s = _
  split
  · rfl
  · cases unfold x <;> rfl

namespace Environment

open Relation (ReflTransGen TransGen)

variable {env : Environment}

/-- Unfolding gives every name the count it had. -/
theorem count_expandWithin (env : Environment) (depth : Nat) (t : Term)
    (s : Scope) : (env.expandWithin depth t s).2.count = s.count :=
  Walk.respects_counts.expandWithin env depth t s

theorem count_expand (env : Environment) (t : Term) (s : Scope) :
    (env.expand t s).2.count = s.count :=
  Walk.respects_counts.expand env t s

/-! ## Unfolding without a bound -/

/-- Below abstractions over `ctx`, unfolding the definitions in a term to the
end gives another. -/
inductive Unfolds (env : Environment) : List Name → Term → Term → Prop where
  | bound {ctx : List Name} {x : Name} (hx : x ∈ ctx) :
      Unfolds env ctx (.var x) (.var x)
  | undefined {ctx : List Name} {x : Name} (hdef : env.get? x = none) :
      Unfolds env ctx (.var x) (.var x)
  | defined {ctx : List Name} {x : Name} {d u : Term} (hx : x ∉ ctx)
      (hdef : env.get? x = some d) :
      Unfolds env ctx d u → Unfolds env ctx (.var x) u
  | abs {ctx : List Name} {x : Name} {b b' : Term} :
      Unfolds env (x :: ctx) b b' → Unfolds env ctx (.abs x b) (.abs x b')
  | app {ctx : List Name} {f f' a a' : Term} :
      Unfolds env ctx f f' → Unfolds env ctx a a' →
        Unfolds env ctx (.app f a) (.app f' a')

/-- Unfolding comes to one term at most. -/
theorem Unfolds.unique {ctx : List Name} {t u u' : Term}
    (h : env.Unfolds ctx t u) (h' : env.Unfolds ctx t u') : u = u' := by
  induction h generalizing u' with
  | bound hx =>
      cases h' with
      | bound => rfl
      | undefined => rfl
      | defined hx' => exact absurd hx hx'
  | undefined hdef =>
      cases h' with
      | bound => rfl
      | undefined => rfl
      | defined _ hdef' =>
          rw [hdef] at hdef'
          cases hdef'
  | defined hx hdef _ ih =>
      cases h' with
      | bound hx' => exact absurd hx' hx
      | undefined hdef' =>
          rw [hdef] at hdef'
          cases hdef'
      | defined _ hdef' h' =>
          rw [hdef, Option.some.injEq] at hdef'
          subst hdef'
          exact ih h'
  | abs _ ih =>
      cases h' with
      | abs hb => rw [ih hb]
  | app _ _ ihf iha =>
      cases h' with
      | app hf ha => rw [ihf hf, iha ha]

/-- A free name of what a term stands for is bound around it or has no
definition. -/
theorem Unfolds.undefined_of_mem {ctx : List Name} {t u : Term}
    (h : env.Unfolds ctx t u) {x : Name} (hx : x ∈ u.freeNames)
    (hctx : x ∉ ctx) : env.get? x = none := by
  induction h with
  | bound hy =>
      rw [Term.mem_freeNames_var] at hx
      exact absurd (hx ▸ hy) hctx
  | undefined hdef =>
      rw [Term.mem_freeNames_var] at hx
      exact hx ▸ hdef
  | defined _ _ _ ih => exact ih hx hctx
  | abs _ ih =>
      rw [Term.mem_freeNames_abs] at hx
      refine ih hx.1 ?_
      simp [hx.2, hctx]
  | app _ _ ihf iha =>
      rw [Term.mem_freeNames_app] at hx
      rcases hx with hx | hx
      · exact ihf hx hctx
      · exact iha hx hctx

/-- A term stands for itself if the names that are free in it are bound around
it or have no definition. -/
theorem Unfolds.refl {ctx : List Name} {t : Term}
    (h : ∀ x ∈ t.freeNames, x ∉ ctx → env.get? x = none) :
    env.Unfolds ctx t t := by
  induction t generalizing ctx with
  | var x =>
      by_cases hx : x ∈ ctx
      · exact .bound hx
      · exact .undefined (h x (by simp) hx)
  | abs x b ih =>
      refine .abs (ih fun y hy hctx => ?_)
      rw [List.mem_cons, not_or] at hctx
      exact h y ((Term.mem_freeNames_abs y x b).2 ⟨hy, hctx.1⟩) hctx.2
  | app f a ihf iha =>
      exact .app (ihf fun x hx => h x (by simp [hx]))
        (iha fun x hx => h x (by simp [hx]))

/-! ## The levels are enough -/

theorem expandWithin_var (env : Environment) (depth : Nat) (x : Name)
    (s : Scope) :
    env.expandWithin (depth + 1) (.var x) s =
      if s.isBound x = true then (.var x, s)
      else match env.get? x with
        | none => (.var x, s)
        | some d => env.expandWithin depth d s := by
  rw [expandWithin_succ, Walk.mapUnbound_var]
  cases env.get? x <;> rfl

theorem expandWithin_abs (env : Environment) (depth : Nat) (x : Name)
    (b : Term) (s : Scope) :
    env.expandWithin (depth + 1) (.abs x b) s =
      (.abs x (env.expandWithin (depth + 1) b (s.enter x)).1,
        (env.expandWithin (depth + 1) b (s.enter x)).2.leave x (s.count x)) := rfl

theorem expandWithin_app (env : Environment) (depth : Nat) (f a : Term)
    (s : Scope) :
    env.expandWithin (depth + 1) (.app f a) s =
      (.app (env.expandWithin (depth + 1) f s).1
          (env.expandWithin (depth + 1) a (env.expandWithin (depth + 1) f s).2).1,
        (env.expandWithin (depth + 1) a (env.expandWithin (depth + 1) f s).2).2) := rfl

/-- One level goes to the end if the levels below it do for the definitions
that it takes up. -/
theorem unfolds_expandWithin_succ {depth : Nat} {t : Term} {s : Scope}
    {ctx : List Name} (hbinds : s.Binds ctx)
    (hbelow : ∀ x ∈ t.freeNames, x ∉ ctx → ∀ d, env.get? x = some d →
      ∀ s' ctx', s'.Binds ctx' →
        env.Unfolds ctx' d (env.expandWithin depth d s').1) :
    env.Unfolds ctx t (env.expandWithin (depth + 1) t s).1 := by
  induction t generalizing s ctx with
  | var x =>
      rw [expandWithin_var]
      by_cases hx : x ∈ ctx
      · rw [if_pos ((hbinds.isBound_iff x).2 hx)]
        exact .bound hx
      · rw [if_neg (mt (hbinds.isBound_iff x).1 hx)]
        cases hdef : env.get? x with
        | none => exact .undefined hdef
        | some d =>
            exact .defined hx hdef (hbelow x (by simp) hx d hdef s ctx hbinds)
  | abs x b ih =>
      rw [expandWithin_abs]
      refine .abs (ih (hbinds.enter x) fun y hy hctx => ?_)
      rw [List.mem_cons, not_or] at hctx
      exact hbelow y ((Term.mem_freeNames_abs y x b).2 ⟨hy, hctx.1⟩) hctx.2
  | app f a ihf iha =>
      have hcount := count_expandWithin env (depth + 1) f s
      rw [expandWithin_app]
      refine .app (ihf hbinds fun y hy => hbelow y (by simp [hy])) ?_
      exact iha (hbinds.of_count_eq hcount) fun y hy => hbelow y (by simp [hy])

/-- Unfolding goes to the end if there are more levels than definitions that
have not been taken up yet.  The names `seen` are those whose definitions have
been, and they lead to the free names of the term. -/
theorem unfolds_expandWithin (hacyclic : env.Acyclic) {depth : Nat}
    {seen : List Name} {t : Term} {s : Scope} {ctx : List Name}
    (hbinds : s.Binds ctx)
    (hseen : ∀ x ∈ seen, ∀ y ∈ t.freeNames, TransGen env.Follows x y)
    (hdepth : env.unseen seen < depth) :
    env.Unfolds ctx t (env.expandWithin depth t s).1 := by
  induction depth generalizing seen t s ctx with
  | zero => exact absurd hdepth (Nat.not_lt_zero _)
  | succ depth ih =>
      refine unfolds_expandWithin_succ hbinds ?_
      intro x hx _ d hdef s' ctx' hbinds'
      have hfresh : x ∉ seen := fun hmem =>
        acyclic_iff.1 hacyclic x (hseen x hmem x hx)
      have hdefined : (env.get? x).isSome = true := by
        rw [hdef]
        rfl
      have hfewer := env.unseen_cons_lt hfresh hdefined
      have hseen' : ∀ z ∈ x :: seen, ∀ y ∈ d.freeNames,
          TransGen env.Follows z y := by
        intro z hz y hy
        have hxy : env.Follows x y := ⟨d, hdef, hy⟩
        rcases List.mem_cons.1 hz with rfl | hz
        · exact .single hxy
        · exact (hseen z hz x hx).tail hxy
      exact ih hbinds' hseen' (by omega)

theorem unseen_le_size (env : Environment) (seen : List Name) :
    env.unseen seen ≤ env.size := by
  have hkeys : env.keys.length = env.size := List.length_map _
  rw [← hkeys]
  exact List.length_filter_le _ _

/-- **In an acyclic environment terms are unfolded to the end**, in every scope
without negative counts. -/
theorem unfolds_expand (hacyclic : env.Acyclic) {s : Scope} {ctx : List Name}
    (hbinds : s.Binds ctx) (t : Term) : env.Unfolds ctx t (env.expand t s).1 := by
  by_cases hempty : env.isEmpty = true
  · rw [expand_of_isEmpty env t hempty]
    exact .refl fun x _ _ => Table.get?_of_isEmpty hempty x
  · have hlevels : env.unseen [] < env.levels s :=
      Nat.lt_of_le_of_lt (env.unseen_le_size []) (env.size_lt_levels s)
    rw [expand_of_not_isEmpty hempty]
    exact unfolds_expandWithin hacyclic hbinds (by simp) hlevels

theorem unfolds_expandTop (hacyclic : env.Acyclic) (t : Term) :
    env.Unfolds [] t (env.expandTop t) :=
  unfolds_expand hacyclic Scope.binds_empty t

end Environment

end UntypedLambda
