import UntypedLambda.Proofs.Environment.Unfolding
import UntypedLambda.Proofs.Nameless.Form

/-!
# Unfolding on nameless forms

A definition is unfolded below the abstractions of the place where it is used,
and these may bind a name that is free in it.  If no abstraction of a term is
over a name that is free in some definition, this cannot happen: every
definition stands for the same thing wherever it is used, and unfolding
replaces free names of the nameless form by what they stand for.  The
abstractions of the definitions themselves may capture what they like; they do
so in the same way everywhere.

## Main results

* `Unfolds.congr`: what a definition stands for depends only on which names
  that are free in definitions are bound around it.
* `nameless_expandTop`: unfolding replaces free names in the nameless form.
-/

namespace UntypedLambda

/-- The names that the abstractions of a term are over. -/
def Term.params : Term → List Name
  | var _ => []
  | abs x b => x :: b.params
  | app f a => f.params ++ a.params

namespace Environment

open Nameless (resolve)

variable {env : Environment} {ctx : List Name}

/-- Some definition has `x` among its free names. -/
def Mentions (env : Environment) (x : Name) : Prop := ∃ k, env.Follows k x

theorem mentions_iff (env : Environment) (x : Name) :
    env.Mentions x ↔ ∃ e ∈ env.entries, x ∈ e.2.freeNames := by
  constructor
  · rintro ⟨k, d, hdef, hx⟩
    exact ⟨(k, d), (env.get?_eq_some_iff k d).1 hdef, hx⟩
  · rintro ⟨⟨k, d⟩, hentry, hx⟩
    exact ⟨k, d, (env.get?_eq_some_iff k d).2 hentry, hx⟩

instance (env : Environment) (x : Name) : Decidable (env.Mentions x) :=
  decidable_of_iff _ (env.mentions_iff x).symm

/-! ## Where a definition is used -/

theorem Unfolds.mem_freeNames {t u : Term} (h : env.Unfolds ctx t u) {x : Name}
    (hx : x ∈ u.freeNames) : x ∈ t.freeNames ∨ env.Mentions x := by
  induction h with
  | bound | undefined => exact Or.inl hx
  | @defined _ y d _ _ hdef _ ih =>
      rcases ih hx with hd | hmention
      · exact Or.inr ⟨y, d, hdef, hd⟩
      · exact Or.inr hmention
  | abs _ ih =>
      rw [Term.mem_freeNames_abs] at hx ⊢
      rcases ih hx.1 with hb | hmention
      · exact Or.inl ⟨hb, hx.2⟩
      · exact Or.inr hmention
  | app _ _ ihf iha =>
      rw [Term.mem_freeNames_app] at hx ⊢
      rcases hx with hx | hx
      · rcases ihf hx with hf | hmention
        · exact Or.inl (Or.inl hf)
        · exact Or.inr hmention
      · rcases iha hx with ha | hmention
        · exact Or.inl (Or.inr ha)
        · exact Or.inr hmention

/-- What a term stands for depends only on which of its free names and of those
of definitions are bound around it. -/
theorem Unfolds.congr {t u : Term} (h : env.Unfolds ctx t u)
    {ctx' : List Name}
    (hctx : ∀ x, x ∈ t.freeNames ∨ env.Mentions x → (x ∈ ctx ↔ x ∈ ctx')) :
    env.Unfolds ctx' t u := by
  induction h generalizing ctx' with
  | @bound _ x hx => exact .bound ((hctx x (Or.inl (by simp))).1 hx)
  | undefined hdef => exact .undefined hdef
  | @defined _ x d _ hx hdef _ ih =>
      refine .defined (mt (hctx x (Or.inl (by simp))).2 hx) hdef (ih ?_)
      rintro y (hy | hmention)
      · exact hctx y (Or.inr ⟨x, d, hdef, hy⟩)
      · exact hctx y (Or.inr hmention)
  | @abs _ x b _ _ ih =>
      refine .abs (ih fun y hy => ?_)
      rw [List.mem_cons, List.mem_cons]
      by_cases hyx : y = x
      · simp [hyx]
      · have houter : y ∈ (Term.abs x b).freeNames ∨ env.Mentions y :=
          hy.imp_left fun hb => (Term.mem_freeNames_abs y x b).2 ⟨hb, hyx⟩
        simp [hyx, hctx y houter]
  | app _ _ ihf iha =>
      refine .app (ihf fun y hy => hctx y ?_) (iha fun y hy => hctx y ?_)
      · exact hy.imp_left fun hf => by simp [hf]
      · exact hy.imp_left fun ha => by simp [ha]

/-! ## What names stand for -/

/-- What an occurrence of `x` below abstractions over `ctx` stands for. -/
def denote (env : Environment) (ctx : List Name) (x : Name) : Nameless :=
  if x ∈ ctx then resolve ctx x else (env.expandTop (.var x)).nameless

theorem readBelow_denote (env : Environment) (x : Name) (ctx : List Name) :
    Term.readBelow x (env.denote ctx) = env.denote (x :: ctx) := by
  funext y
  have hresolve : Term.readBelow x (resolve ctx) y = resolve (x :: ctx) y := by
    rw [Term.readBelow_resolve]
  by_cases hyx : y = x
  · rw [hyx, Term.readBelow_self] at hresolve ⊢
    rw [denote, if_pos List.mem_cons_self, hresolve]
  · rw [Term.readBelow_ne _ hyx] at hresolve ⊢
    by_cases hy : y ∈ ctx
    · rw [denote, denote, if_pos hy, if_pos (List.mem_cons_of_mem x hy),
        hresolve]
    · have hy' : y ∉ x :: ctx := by simp [hyx, hy]
      rw [denote, denote, if_neg hy, if_neg hy']
      exact Term.rename_nameless _ _

/-- Below abstractions that bind no name of a definition, a definition stands
for what it stands for by itself. -/
theorem Unfolds.namelessWithin_of_defined (hacyclic : env.Acyclic)
    (hctx : ∀ x ∈ ctx, ¬ env.Mentions x) {x : Name} {d u : Term}
    (hdef : env.get? x = some d) (h : env.Unfolds ctx d u) :
    u.namelessWithin ctx = (env.expandTop (.var x)).nameless := by
  have hmention : ∀ y ∈ d.freeNames, env.Mentions y :=
    fun y hy => ⟨x, d, hdef, hy⟩
  have halone : env.Unfolds [] d u := by
    refine h.congr fun y hy => ?_
    have hy' : env.Mentions y := hy.elim (hmention y) id
    exact iff_of_false (fun hmem => hctx y hmem hy') List.not_mem_nil
  have htop : env.expandTop (.var x) = u :=
    (unfolds_expandTop hacyclic (.var x)).unique
      (.defined List.not_mem_nil hdef halone)
  have hfree : ∀ y ∈ u.freeNames, y ∉ ctx := by
    intro y hy hmem
    have hy' : env.Mentions y := (h.mem_freeNames hy).elim (hmention y) id
    exact hctx y hmem hy'
  rw [htop, Term.namelessWithin_of_not_mem hfree]

/-- Unfolding is, on nameless forms, a reading of names as what they stand for,
if no abstraction is over a name of a definition. -/
theorem Unfolds.namelessWithin (hacyclic : env.Acyclic) {t u : Term}
    (h : env.Unfolds ctx t u) (hparams : ∀ x ∈ t.params, ¬ env.Mentions x)
    (hctx : ∀ x ∈ ctx, ¬ env.Mentions x) :
    u.namelessWithin ctx = t.readBy (env.denote ctx) := by
  induction t generalizing ctx u with
  | var x =>
      show _ = env.denote ctx x
      cases h with
      | bound hx =>
          rw [denote, if_pos hx]
          rfl
      | undefined hdef =>
          have htop : env.expandTop (.var x) = .var x :=
            (unfolds_expandTop hacyclic (.var x)).unique (.undefined hdef)
          rw [denote, htop]
          by_cases hx : x ∈ ctx
          · rw [if_pos hx]
            rfl
          · rw [if_neg hx]
            exact if_neg hx
      | defined hx hdef hd =>
          rw [denote, if_neg hx]
          exact hd.namelessWithin_of_defined hacyclic hctx hdef
  | abs x b ih =>
      cases h with
      | abs hb =>
          have hx : ¬ env.Mentions x := hparams x (by simp [Term.params])
          have hb' := ih hb (fun y hy => hparams y (by simp [Term.params, hy]))
            (by simpa [hx] using hctx)
          rw [Term.namelessWithin, Term.readBy, hb', readBelow_denote]
  | app f a ihf iha =>
      cases h with
      | app hf ha =>
          have hf' := ihf hf (fun y hy => hparams y (by simp [Term.params, hy]))
            hctx
          have ha' := iha ha (fun y hy => hparams y (by simp [Term.params, hy]))
            hctx
          rw [Term.namelessWithin, Term.readBy, hf', ha']

/-- **Unfolding replaces free names in the nameless form**, if no abstraction of
the term is over a name that is free in a definition. -/
theorem nameless_expandTop (hacyclic : env.Acyclic) {t : Term}
    (hparams : ∀ x ∈ t.params, ¬ env.Mentions x) :
    (env.expandTop t).nameless =
      Nameless.replaceNames (fun x => (env.expandTop (.var x)).nameless)
        t.nameless := by
  have hunfolds := unfolds_expandTop hacyclic t
  have hread := hunfolds.namelessWithin hacyclic hparams (by simp)
  have hdenote : env.denote [] =
      fun x => (env.expandTop (.var x)).nameless := by
    funext x
    exact if_neg List.not_mem_nil
  rw [Term.nameless, hread, hdenote]
  exact Term.readBy_eq_replaceNames (fun x ξ => Term.rename_nameless ξ _) t

end Environment

end UntypedLambda
