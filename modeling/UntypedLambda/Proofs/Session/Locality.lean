import UntypedLambda.Proofs.Reduction.Evaluation
import UntypedLambda.Proofs.Session.WellFormed

/-!
# A result depends only on the definitions it can reach

Unfolding follows the free names of a term into their definitions, and from
there into others, but it looks at no name that the term does not lead to.  Two
environments that agree on the names a term leads to therefore give it the same
meaning, whatever else they define.

For a session this means that taking up a definition, a new one or one in
place of another, changes nothing for an expression that does not lead to its
name: the term that the expression stands for, what it is reduced to, and all
that is shown for it stay the same.

## Main results

* `Unfolds.of_agree`: unfolding looks only at names that the term leads to.
* `sameResults_of_bind`: a definition changes nothing for an expression that
  does not lead to its name.
* `results_depend_on_reached`: both, for environments and for sessions that
  start without definitions.
-/

namespace UntypedLambda

namespace Environment

open Relation (ReflTransGen)

variable {env env' : Environment}

/-! ## Environments that agree -/

/-- Two environments say the same about every name that a term leads to. -/
def AgreeOn (env env' : Environment) (t : Term) : Prop :=
  ∀ x, env.Reaches x t → env.get? x = env'.get? x

/-- Unfolding looks only at names that the term leads to, and of its free names
only at those that no abstraction around it binds. -/
theorem Unfolds.of_agree {ctx : List Name} {t u : Term}
    (h : env.Unfolds ctx t u)
    (hagree : ∀ y ∈ t.freeNames, y ∉ ctx →
      ∀ x, ReflTransGen env.Follows y x → env.get? x = env'.get? x) :
    env'.Unfolds ctx t u := by
  induction h with
  | bound hx => exact .bound hx
  | @undefined ctx x hnone =>
      by_cases hx : x ∈ ctx
      · exact .bound hx
      · have hsame := hagree x (by simp) hx x .refl
        exact .undefined (hsame ▸ hnone)
  | @defined _ x d _ hx hdef _ ih =>
      have hsame := hagree x (by simp) hx x .refl
      refine .defined hx (hsame ▸ hdef) (ih fun y hy _ z hpath => ?_)
      -- what the definition leads to, the term leads to through `x`
      have hstep : env.Follows x y := ⟨d, hdef, hy⟩
      exact hagree x (by simp) hx z (.head hstep hpath)
  | @abs _ x b _ _ ih =>
      refine .abs (ih fun y hy hctx => ?_)
      rw [List.mem_cons, not_or] at hctx
      exact hagree y ((Term.mem_freeNames_abs y x b).2 ⟨hy, hctx.1⟩) hctx.2
  | app _ _ ihf iha =>
      exact .app (ihf fun y hy => hagree y (by simp [hy]))
        (iha fun y hy => hagree y (by simp [hy]))

theorem expandTop_of_agreeOn (hacyclic : env.Acyclic)
    (hacyclic' : env'.Acyclic) {t : Term} (hagree : env.AgreeOn env' t) :
    env.expandTop t = env'.expandTop t := by
  have hunfolds : env'.Unfolds [] t (env.expandTop t) :=
    (unfolds_expandTop hacyclic t).of_agree
      fun y hy _ x hpath => hagree x ⟨y, hy, hpath⟩
  exact hunfolds.unique (unfolds_expandTop hacyclic' t)

/-- A definition of a name that a term does not lead to makes no difference to
the names that it does lead to. -/
theorem agreeOn_insert {name : Name} {d t : Term}
    (hunreached : ¬ env.Reaches name t) :
    env.AgreeOn (env.insert name d) t := by
  intro x hx
  have hne : name ≠ x := by
    intro heq
    rw [heq] at hunreached
    exact hunreached hx
  rw [Table.get?_insert, if_neg hne]

end Environment

namespace Session

/-! ## Sessions after a definition -/

/-- The expression of a command that shows what becomes of one. -/
def Command.expr? : Command → Option String
  | .evaluate expr | .step expr | .expand expr | .outline expr
  | .number expr => some expr
  | .quit | .help | .clear | .define _ | .unknown _ _ => none

/-- Two sessions give the same results for an expression, and show the same for
every line that asks for one of them. -/
structure SameResults (s s' : Session) (expr : String) : Prop where
  expand : s'.expand expr = s.expand expr
  step : s'.step expr = s.step expr
  evaluate : s'.evaluate expr = s.evaluate expr
  number : s'.number expr = s.number expr
  shown : ∀ line, (Command.ofLine (trimmed (clean line))).expr? = some expr →
    (s'.execute line).map Prod.fst = (s.execute line).map Prod.fst

/-- What a command about an expression shows does not tell apart sessions that
give the same results for it. -/
theorem perform_map_fst {s s' : Session} {expr : String}
    (hexpand : s'.expand expr = s.expand expr)
    (hevaluate : s'.evaluate expr = s.evaluate expr) {command : Command}
    (hcommand : command.expr? = some expr) :
    (s'.perform command).map Prod.fst = (s.perform command).map Prod.fst := by
  cases command <;> cases hcommand
  case evaluate => rw [perform, perform, hevaluate, map_map, map_map]
  case step =>
    rw [perform, perform, Session.step, Session.step, hexpand]
    simp only [map_map]
  case expand => rw [perform, perform, hexpand, map_map, map_map]
  case outline => rw [perform, perform, map_map, map_map]
  case number =>
    rw [perform, perform, Session.number, Session.number, hevaluate]
    simp only [map_map]

/-- Sessions that differ in their environments only give the same results for
an expression if it stands for the same term in both. -/
theorem sameResults_of_expandTop {s : Session} {env : Environment}
    {expr : String}
    (h : ∀ t, Grammar.parse expr = .ok t →
      env.expandTop t = s.environment.expandTop t) :
    s.SameResults { s with environment := env } expr := by
  have hexpand : Session.expand { s with environment := env } expr =
      s.expand expr := by
    unfold Session.expand parse
    cases hparse : Grammar.parse expr with
    | error e => rfl
    | ok t => exact congrArg Except.ok (h t hparse)
  have hevaluate : Session.evaluate { s with environment := env } expr =
      s.evaluate expr := by
    unfold Session.evaluate
    rw [hexpand]
  refine ⟨hexpand, ?_, hevaluate, ?_, ?_⟩
  · rw [Session.step, Session.step, hexpand]
  · rw [Session.number, Session.number, hevaluate]
  · intro line hline
    unfold execute
    by_cases htext : trimmed (clean line) = ""
    · rw [if_pos htext, if_pos htext]
      rfl
    · rw [if_neg htext, if_neg htext]
      exact perform_map_fst hexpand hevaluate hline

/-- **A definition changes nothing for an expression that does not lead to its
name**, be the name new or not. -/
theorem sameResults_of_bind {s s' : Session} (hacyclic : s.environment.Acyclic)
    {statement : String} {d : Term} (hbind : s.bind statement = .ok (d, s'))
    {expr : String}
    (hunreached : ∀ t, Grammar.parse expr = .ok t →
      ¬ s.environment.Reaches (definedName statement) t) :
    s.SameResults s' expr := by
  obtain ⟨-, -, -, hself, rfl⟩ := bind_eq_ok_iff.1 hbind
  refine sameResults_of_expandTop fun t hparse => ?_
  have hagree : s.environment.AgreeOn
      (s.environment.insert (definedName statement) d) t :=
    Environment.agreeOn_insert (hunreached t hparse)
  have hafter := Environment.acyclic_insert hacyclic hself
  exact (Environment.expandTop_of_agreeOn hacyclic hafter hagree).symm

/-- **A result depends only on the definitions it can reach.**  Acyclic
environments that agree on the names a term leads to unfold it to the same term
and reduce it to the same term.  And in a session that started without
definitions, taking up a definition leaves alone all results of an expression
that does not lead to its name, and what is shown for them. -/
theorem results_depend_on_reached :
    (∀ {env env' : Environment} {t : Term}, env.Acyclic → env'.Acyclic →
      env.AgreeOn env' t →
        env.expandTop t = env'.expandTop t ∧
          ∀ limit, env.evaluate t limit = env'.evaluate t limit) ∧
      ∀ {start s' : Session} (calls : List Call) {statement expr : String}
        {d : Term}, start.environment = ∅ →
        (start.afterAll calls).bind statement = .ok (d, s') →
        (∀ t, Grammar.parse expr = .ok t →
          ¬ (start.afterAll calls).environment.Reaches
            (definedName statement) t) →
        (start.afterAll calls).SameResults s' expr := by
  constructor
  · intro env env' t hacyclic hacyclic' hagree
    have hexpand : env.expandTop t = env'.expandTop t :=
      Environment.expandTop_of_agreeOn hacyclic hacyclic' hagree
    refine ⟨hexpand, fun limit => ?_⟩
    rw [Environment.evaluate, Environment.reduce, hexpand]
    rfl
  · intro start s' calls statement expr d hstart hbind hunreached
    have hacyclic := acyclic_afterAll hstart calls
    exact sameResults_of_bind hacyclic hbind hunreached

/-- The name `z`, which the expression does not lead to, is given another
definition. -/
theorem results_depend_on_reached_redefined :
    let env : Environment := Table.insert ∅ "z" (.app (.var "k") (.var "k"))
    let env' : Environment := env.insert "z" (.var "m")
    let t := Term.app (.var "k") (.var "y")
    let start := typedIn ⟨.plain, true, ∅⟩ .usual
    let s := start.afterAll [.bind "z = k k"]
    let s' := { s with environment := env' }
    env.Acyclic ∧ env'.Acyclic ∧ env.AgreeOn env' t ∧
      env.evaluate t none = env'.evaluate t none ∧
      s.environment = env ∧ s.bind "z = m" = .ok (.var "m", s') ∧
      Grammar.parse "k y" = .ok t ∧ ¬ env.Reaches "z" t ∧
      s.SameResults s' "k y" := by
  intro env env' t start s s'
  have hself : ¬ Environment.Reaches ∅ "z" (.app (.var "k") (.var "k")) :=
    Environment.not_reaches (by cbv)
  have hself' : ¬ env.Reaches "z" (.var "m") := Environment.not_reaches (by cbv)
  have hunreached : ¬ env.Reaches "z" t := Environment.not_reaches (by cbv)
  have hacyclic : env.Acyclic :=
    Environment.acyclic_insert Environment.acyclic_empty hself
  have hacyclic' : env'.Acyclic := Environment.acyclic_insert hacyclic hself'
  have hagree : env.AgreeOn env' t := Environment.agreeOn_insert hunreached
  have hfirst : start.bind "z = k k" =
      .ok (.app (.var "k") (.var "k"), { start with environment := env }) :=
    bind_eq_ok_iff.2 ⟨by decide, by decide, by decide +kernel, hself, rfl⟩
  have hs : s = { start with environment := env } := after_bind hfirst
  have henv : s.environment = env := congrArg Session.environment hs
  have hbind : s.bind "z = m" = .ok (.var "m", s') := by
    refine bind_eq_ok_iff.2 ⟨by decide, by decide, by decide +kernel, ?_, ?_⟩
    · rw [henv]
      exact hself'
    · rw [henv]
      rfl
  have hparse : Grammar.parse "k y" = .ok t := by decide +kernel
  have hresults := (results_depend_on_reached.1 hacyclic hacyclic' hagree).2 none
  have hsame : s.SameResults s' "k y" := by
    refine results_depend_on_reached.2 [.bind "z = k k"] rfl hbind fun u hu => ?_
    rw [hparse, Except.ok.injEq] at hu
    rw [← hu]
    show ¬ s.environment.Reaches "z" t
    rw [henv]
    exact hunreached
  exact ⟨hacyclic, hacyclic', hagree, hresults, henv, hbind, hparse, hunreached,
    hsame⟩

end Session

end UntypedLambda
