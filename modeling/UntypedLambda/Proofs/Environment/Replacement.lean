import Mathlib.Data.List.Sort
import Mathlib.Order.Extension.Linear
import UntypedLambda.Proofs.Environment.Hygiene
import UntypedLambda.Proofs.Nameless.Substitution

/-!
# Unfolding as substitution of one name after another

Unfolding takes up definitions where it meets them, all in one traversal.  The
same term can be had by substituting the definitions one name at a time, if a
name comes after all those whose definitions bring it in, and if no abstraction
is over a name that is free in a definition.  Substitution then renames
nothing, so the two agree to the letter and not only up to bound names.

Each substitution leaves alone what the term stands for (`Unfolds.subst`): an
occurrence that is replaced would have been unfolded to what its definition
stands for.  A name that has been substituted away does not come back, because
the definitions substituted later do not have it free.  So the last term has no
defined name left and stands for itself.

## Main results

* `Unfolds.subst`: substituting a definition keeps what a term stands for.
* `exists_usersFirst`: an acyclic environment can be listed so that each name
  comes after those whose definitions have it free.
* `expandTop_eq_replaceAll`: unfolding is substitution in such an order.
-/

namespace UntypedLambda

/-- A substitution that has no abstraction to rename brings in no parameters
but those of the replacement. -/
theorem Term.mem_params_subst {x : Name} {r t : Term}
    (h : ∀ y ∈ t.params, y ∉ r.freeNames) {y : Name}
    (hy : y ∈ (subst x r t).params) : y ∈ t.params ∨ y ∈ r.params := by
  induction t with
  | var z =>
      rw [subst_var] at hy
      split at hy
      · exact Or.inr hy
      · exact Or.inl hy
  | abs z b ih =>
      have hz : z ∉ r.freeNames := h z (by simp [params])
      rw [subst_abs, if_neg hz] at hy
      split at hy
      · exact Or.inl hy
      · rw [params, List.mem_cons] at hy ⊢
        rcases hy with hy | hy
        · exact Or.inl (Or.inl hy)
        · have hb := ih (fun w hw => h w (by simp [params, hw])) hy
          exact hb.imp_left Or.inr
  | app f a ihf iha =>
      rw [subst_app, params, List.mem_append] at hy
      rw [params, List.mem_append]
      rcases hy with hy | hy
      · have hf := ihf (fun w hw => h w (by simp [params, hw])) hy
        exact hf.imp_left Or.inl
      · have ha := iha (fun w hw => h w (by simp [params, hw])) hy
        exact ha.imp_left Or.inr

namespace Environment

open Relation (ReflTransGen TransGen)

variable {env : Environment}

/-! ## One name -/

/-- Substituting the definition of a name keeps what a term stands for, if the
abstractions of the term capture nothing. -/
theorem Unfolds.subst {ctx : List Name} {t u : Term} (h : env.Unfolds ctx t u)
    {k : Name} {d : Term} (hdef : env.get? k = some d) (hk : k ∉ ctx)
    (hparams : ∀ x ∈ t.params, x ∉ d.freeNames) :
    env.Unfolds ctx (Term.subst k d t) u := by
  induction t generalizing ctx u with
  | var x =>
      rw [Term.subst_var]
      by_cases hx : x = k
      · rw [if_pos hx]
        rw [hx] at h
        cases h with
        | bound hmem => exact absurd hmem hk
        | undefined hnone =>
            rw [hdef] at hnone
            cases hnone
        | defined _ hsome hd =>
            rw [hdef, Option.some.injEq] at hsome
            rw [hsome]
            exact hd
      · rw [if_neg hx]
        exact h
  | abs x b ih =>
      have hx : x ∉ d.freeNames := hparams x (by simp [Term.params])
      -- so the abstraction keeps its parameter
      rw [Term.subst_abs, if_neg hx]
      by_cases hxk : x = k
      · rw [if_pos hxk]
        exact h
      · rw [if_neg hxk]
        cases h with
        | abs hb =>
            have hk' : k ∉ x :: ctx := by simp [hk, Ne.symm hxk]
            exact .abs (ih hb hk' fun y hy =>
              hparams y (by simp [Term.params, hy]))
  | app f a ihf iha =>
      rw [Term.subst_app]
      cases h with
      | app hf ha =>
          have hf' := ihf hf hk fun y hy => hparams y (by simp [Term.params, hy])
          have ha' := iha ha hk fun y hy => hparams y (by simp [Term.params, hy])
          exact .app hf' ha'

/-- Put its definition for the free occurrences of a name, if it has one. -/
def replaceDefined (env : Environment) (t : Term) (k : Name) : Term :=
  match env.get? k with
  | none => t
  | some d => Term.subst k d t

theorem replaceDefined_of_none {k : Name} (h : env.get? k = none) (t : Term) :
    env.replaceDefined t k = t := by
  rw [replaceDefined, h]

theorem replaceDefined_of_some {k : Name} {d : Term} (h : env.get? k = some d)
    (t : Term) : env.replaceDefined t k = Term.subst k d t := by
  rw [replaceDefined, h]

/-- The abstractions of a term capture no name that is free in a definition. -/
def CapturesNothing (env : Environment) (t : Term) : Prop :=
  ∀ x ∈ t.params, ¬ env.Mentions x

/-- The abstractions of the definitions capture no name that is free in one of
them. -/
def Hygienic (env : Environment) : Prop :=
  ∀ k d, env.get? k = some d → env.CapturesNothing d

instance (env : Environment) (t : Term) : Decidable (env.CapturesNothing t) :=
  inferInstanceAs (Decidable (∀ x ∈ t.params, ¬ env.Mentions x))

theorem hygienic_iff (env : Environment) :
    env.Hygienic ↔ ∀ e ∈ env.entries, env.CapturesNothing e.2 := by
  constructor
  · intro h e hentry
    exact h e.1 e.2 ((env.get?_eq_some_iff e.1 e.2).2 hentry)
  · intro h k d hdef
    exact h (k, d) ((env.get?_eq_some_iff k d).1 hdef)

instance (env : Environment) : Decidable env.Hygienic :=
  decidable_of_iff _ env.hygienic_iff.symm

theorem CapturesNothing.not_mem {t : Term} (h : env.CapturesNothing t)
    {k : Name} {d : Term} (hdef : env.get? k = some d) :
    ∀ x ∈ t.params, x ∉ d.freeNames :=
  fun x hx hmem => h x hx ⟨k, d, hdef, hmem⟩

theorem CapturesNothing.replaceDefined (hhygienic : env.Hygienic) {t : Term}
    (h : env.CapturesNothing t) (k : Name) :
    env.CapturesNothing (env.replaceDefined t k) := by
  cases hdef : env.get? k with
  | none =>
      rw [replaceDefined_of_none hdef]
      exact h
  | some d =>
      rw [replaceDefined_of_some hdef]
      intro x hx
      rcases Term.mem_params_subst (h.not_mem hdef) hx with ht | hd
      · exact h x ht
      · exact hhygienic k d hdef x hd

theorem Unfolds.replaceDefined {t u : Term} (h : env.Unfolds [] t u)
    (hparams : env.CapturesNothing t) (k : Name) :
    env.Unfolds [] (env.replaceDefined t k) u := by
  cases hdef : env.get? k with
  | none =>
      rw [replaceDefined_of_none hdef]
      exact h
  | some d =>
      rw [replaceDefined_of_some hdef]
      exact h.subst hdef List.not_mem_nil (hparams.not_mem hdef)

/-- A name that is free afterwards was so before, or the definition has brought
it in. -/
theorem mem_freeNames_replaceDefined {t : Term} {k x : Name}
    (hx : x ∈ (env.replaceDefined t k).freeNames) :
    x ∈ t.freeNames ∨ env.Follows k x := by
  cases hdef : env.get? k with
  | none =>
      rw [replaceDefined_of_none hdef] at hx
      exact Or.inl hx
  | some d =>
      rw [replaceDefined_of_some hdef, Term.mem_freeNames_substitute] at hx
      rcases hx with ⟨ht, -⟩ | ⟨-, hd⟩
      · exact Or.inl ht
      · exact Or.inr ⟨d, hdef, hd⟩

/-- A defined name is gone, unless its own definition brings it back. -/
theorem not_mem_freeNames_replaceDefined {k : Name} (hkey : k ∈ env.keys)
    (hself : ¬ env.Follows k k) (t : Term) :
    k ∉ (env.replaceDefined t k).freeNames := by
  intro hk
  obtain ⟨d, hdef⟩ :=
    Option.isSome_iff_exists.1 ((Table.mem_keys_iff env k).1 hkey)
  rw [replaceDefined_of_some hdef, Term.mem_freeNames_substitute] at hk
  rcases hk with ⟨-, hne⟩ | ⟨-, hd⟩
  · exact hne rfl
  · exact hself ⟨d, hdef, hd⟩

/-! ## One name after another -/

/-- Put their definitions for names, one after another. -/
def replaceAll (env : Environment) (order : List Name) (t : Term) : Term :=
  order.foldl env.replaceDefined t

/-- A listing of the defined names in which each comes after all those whose
definitions have it free. -/
structure UsersFirst (env : Environment) (order : List Name) : Prop where
  complete : order.Perm env.keys
  later : order.Pairwise fun x y => ¬ env.Follows y x

instance (env : Environment) (order : List Name) :
    Decidable (env.UsersFirst order) :=
  decidable_of_iff
    (order.Perm env.keys ∧ order.Pairwise fun x y => ¬ env.Follows y x)
    ⟨fun h => ⟨h.1, h.2⟩, fun h => ⟨h.complete, h.later⟩⟩

theorem Unfolds.replaceAll (hhygienic : env.Hygienic) {t u : Term}
    (h : env.Unfolds [] t u) (hparams : env.CapturesNothing t)
    (order : List Name) : env.Unfolds [] (env.replaceAll order t) u := by
  induction order generalizing t with
  | nil => exact h
  | cons k order ih =>
      exact ih (h.replaceDefined hparams k) (hparams.replaceDefined hhygienic k)

/-- A name that no definition of the list brings in does not come up. -/
theorem not_mem_freeNames_replaceAll {order : List Name} {x : Name} {t : Term}
    (hx : x ∉ t.freeNames) (h : ∀ k ∈ order, ¬ env.Follows k x) :
    x ∉ (env.replaceAll order t).freeNames := by
  induction order generalizing t with
  | nil => exact hx
  | cons k order ih =>
      refine ih (fun hmem => ?_) fun y hy => h y (List.mem_cons_of_mem k hy)
      rcases mem_freeNames_replaceDefined hmem with ht | hfollows
      · exact hx ht
      · exact h k List.mem_cons_self hfollows

/-- A name is gone once its definition has been put for it, if no later one
brings it back. -/
theorem replaced_not_mem (hacyclic : env.Acyclic) {order : List Name}
    (hlater : order.Pairwise fun x y => ¬ env.Follows y x) {x : Name}
    (hx : x ∈ order) (hkey : x ∈ env.keys) (t : Term) :
    x ∉ (env.replaceAll order t).freeNames := by
  induction order generalizing t with
  | nil => cases hx
  | cons k order ih =>
      rw [List.pairwise_cons] at hlater
      rcases List.mem_cons.1 hx with rfl | hx
      · have hself : ¬ env.Follows x x := fun hstep =>
          acyclic_iff.1 hacyclic x (.single hstep)
        have hgone : x ∉ (env.replaceDefined t x).freeNames :=
          not_mem_freeNames_replaceDefined hkey hself t
        show x ∉ (env.replaceAll order (env.replaceDefined t x)).freeNames
        exact not_mem_freeNames_replaceAll hgone hlater.1
      · exact ih hlater.2 hx (env.replaceDefined t k)

/-- Names that lead to others come first in some order of all names. -/
theorem exists_usersFirst (hacyclic : env.Acyclic) :
    ∃ order, env.UsersFirst order := by
  classical
  have hpartial : IsPartialOrder Name (ReflTransGen env.Follows) :=
    { refl := fun _ => .refl
      trans := fun _ _ _ => .trans
      antisymm := fun x y hxy hyx => by
        rcases Relation.reflTransGen_iff_eq_or_transGen.1 hxy with heq | hpath
        · exact heq.symm
        · exact absurd (hpath.trans_left hyx) (acyclic_iff.1 hacyclic x) }
  -- sorting by a linear order that puts a name before all it leads to
  obtain ⟨r, hlinear, hle⟩ := extend_partialOrder (ReflTransGen env.Follows)
  refine ⟨env.keys.insertionSort r, List.perm_insertionSort r env.keys, ?_⟩
  have hsorted := List.pairwise_insertionSort r env.keys
  refine hsorted.imp fun {x y} hxy hyx => ?_
  have heq : x = y := antisymm hxy (hle y x (.single hyx))
  rw [heq] at hyx
  exact acyclic_iff.1 hacyclic y (.single hyx)

/-- **Unfolding is substitution of one name after another**, in every order in
which a name comes after all those whose definitions have it free, and there is
such an order.  The abstractions of the term and of the definitions must not be
over names that are free in definitions. -/
theorem expandTop_eq_replaceAll (hacyclic : env.Acyclic)
    (hhygienic : env.Hygienic) {t : Term} (hparams : env.CapturesNothing t) :
    (∃ order, env.UsersFirst order) ∧
      ∀ order, env.UsersFirst order →
        env.expandTop t = env.replaceAll order t := by
  refine ⟨exists_usersFirst hacyclic, fun order horder => ?_⟩
  have hunfolds : env.Unfolds [] t (env.expandTop t) :=
    unfolds_expandTop hacyclic t
  have hnone : ∀ x ∈ (env.replaceAll order t).freeNames, env.get? x = none := by
    intro x hx
    by_contra hdef
    have hkey : x ∈ env.keys :=
      (Table.mem_keys_iff env x).2 (Option.isSome_iff_ne_none.2 hdef)
    exact replaced_not_mem hacyclic horder.later
      (horder.complete.mem_iff.2 hkey) hkey t hx
  have hself : env.Unfolds [] (env.replaceAll order t) (env.replaceAll order t) :=
    .refl fun x hx _ => hnone x hx
  exact (hunfolds.replaceAll hhygienic hparams order).unique hself

/-- One abstraction is over a defined name, and keeps its occurrence from being
replaced. -/
theorem expandTop_eq_replaceAll_shadowed :
    let env : Environment :=
      (Table.insert ∅ "m" (.var "q")).insert "k"
        (.abs "p" (.app (.var "m") (.var "p")))
    let t := Term.app (.abs "k" (.app (.var "k") (.var "m"))) (.var "k")
    env.Acyclic ∧ env.Hygienic ∧ env.CapturesNothing t ∧
      env.UsersFirst ["k", "m"] ∧
      env.expandTop t = env.replaceAll ["k", "m"] t ∧
      env.expandTop t =
        .app (.abs "k" (.app (.var "k") (.var "q")))
          (.abs "p" (.app (.var "q") (.var "p"))) := by
  intro env t
  have hm : reaches ∅ "m" (.var "q") = false := by cbv
  have hk : reaches (Table.insert ∅ "m" (.var "q")) "k"
      (.abs "p" (.app (.var "m") (.var "p"))) = false := by cbv
  have hacyclic : env.Acyclic :=
    acyclic_insert_of_reaches (acyclic_insert_of_reaches acyclic_empty hm) hk
  have hhygienic : env.Hygienic := by decide
  have hparams : env.CapturesNothing t := by decide
  have horder : env.UsersFirst ["k", "m"] := by decide
  have hequal := (expandTop_eq_replaceAll hacyclic hhygienic hparams).2 _ horder
  exact ⟨hacyclic, hhygienic, hparams, horder, hequal, by decide +kernel⟩

end Environment

end UntypedLambda
