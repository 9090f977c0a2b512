import UntypedLambda.Proofs.Nameless.Renaming
import UntypedLambda.Proofs.Reduction.Leftmost
import UntypedLambda.Proofs.Scope.Walks
import UntypedLambda.Reduction.Reducer

/-!
# No new name is ever refused

Substitution and contraction give a fresh parameter to an abstraction by renaming
what the old one binds, without asking whether the new name occurs already.  Here
they ask: parameters are renamed by `alphaRename`, which may refuse, and whatever
is refused on the way is the outcome of the whole (`Checked`).  Steps, unfolding
and evaluation are built on this as they are built on the operations that do not
ask.

Nothing is ever refused.  There are two places where a parameter is renamed, and
at both the new name is fresh for the abstraction, whatever else it is made fresh
for: the free names of what is put in and the name it is put for in a
substitution, the names of the scope in a contraction.

## Main results

* `substChecked_eq`, `contractChecked_eq`: the two places.
* `stepChecked_eq`, `expandChecked_eq`, `evaluateChecked_eq`: what is built on them.
* `alphaRename_exact_and_never_refused`: when a renaming is refused and what it
  gives otherwise, and that none is refused on the way.
-/

namespace UntypedLambda

open Term (RenameError)

/-- A traversal in a scope that may be refused a new name. -/
abbrev Checked := StateT Scope (Except RenameError)

/-- A traversal to which nothing is refused. -/
def Checked.unrefused {α : Type} (m : StateM Scope α) : Checked α := fun s => .ok (m s)

/-- A traversal is refused nothing if nothing that it is put together from is. -/
theorem respects_unrefused : Walk.Respects (m := Checked) (n := StateM Scope)
    fun _ checked m => checked = Checked.unrefused m where
  pure _ := rfl
  bind h hnext := by
    rw [h, funext hnext]
    rfl
  look := rfl
  within h x := by
    rw [h]
    rfl

namespace Term

/-! ## Renaming on the way -/

/-- Whether an abstraction has to be given another parameter before `r` is put
into it. -/
def clashes (r : Term) : Term → Bool
  | abs y _ => y ∈ r.freeNames
  | _ => false

/-- An abstraction whose parameter has been made fresh has its size and does not
clash any more. -/
theorem freshened_of_alphaRename {y x : Name} {b r u : Term}
    (h : (abs y b).alphaRename y (freshParam y b x r.freeNames) = .ok u) :
    u.size = (abs y b).size ∧ r.clashes u = false := by
  obtain ⟨c, hc, -, rfl⟩ := alphaRename_eq_ok_iff.1 h
  cases hc
  obtain ⟨hfree, -, -⟩ := freshParam_spec y b x r.freeNames
  exact ⟨by simp [size], by simp [clashes, hfree]⟩

/-- Replace the free occurrences of `x` by `r`.  An abstraction whose parameter is
free in `r` is renamed, unless that is refused, and taken up again. -/
def substChecked (x : Name) (r : Term) : Term → Except RenameError Term
  | var y => .ok (if y = x then r else var y)
  | abs y b =>
      if y = x then .ok (abs y b)
      else if _hclash : y ∈ r.freeNames then
        match _hrename : (abs y b).alphaRename y (freshParam y b x r.freeNames) with
        | .error e => .error e
        | .ok u => substChecked x r u
      else (substChecked x r b).map (abs y)
  | app f a => do
      let f' ← substChecked x r f
      let a' ← substChecked x r a
      return app f' a'
termination_by t => (t.size, (r.clashes t).toNat)
decreasing_by
  · obtain ⟨hsize, hclash⟩ := freshened_of_alphaRename _hrename
    rw [hsize, hclash]
    exact Prod.Lex.right _ (by simp [clashes, _hclash])
  · exact Prod.Lex.left _ _ (by simp [size])
  · exact Prod.Lex.left _ _ (by simp only [size]; omega)
  · exact Prod.Lex.left _ _ (by simp only [size]; omega)

/-- The contraction of `(λx.b) a` in the scope `s`.  The abstraction is renamed if
`x` is free in `a`, unless that is refused. -/
def contractChecked (x : Name) (b a : Term) (s : Scope) : Except RenameError Term :=
  if x ∈ a.freeNames then do
    match ← (abs x b).alphaRename x (redexParam x b a s.names) with
    | abs z c => substChecked z a c
    | t => return t
  else substChecked x a b

/-- Contract the leftmost outermost redex of a term, if there is one. -/
def stepChecked (t : Term) : Checked (Option Term) :=
  Walk.step (fun x b a => do contractChecked x b a (← Walk.look)) t

/-! ## The two places -/

/-- A parameter is never refused a name that does not occur in the abstraction. -/
theorem alphaRename_of_not_mem {x z : Name} {b : Term} (hz : z ∉ (abs x b).names) :
    (abs x b).alphaRename x z = .ok (abs z (b.rename x z)) :=
  alphaRename_eq_ok_iff.2 ⟨b, rfl, hz, rfl⟩

theorem freshParam_not_mem_names (y : Name) (b : Term) (x : Name)
    (free : List Name) : freshParam y b x free ∉ (abs y b).names := by
  intro hmem
  have hfresh := fresh_not_mem y (free ++ (abs y b).names ++ [x])
  exact hfresh (List.mem_append_left _ (List.mem_append_right _ hmem))

theorem redexParam_not_mem_names (x : Name) (b a : Term) (around : List Name) :
    redexParam x b a around ∉ (abs x b).names := by
  intro hmem
  have hfresh := fresh_not_mem x (a.freeNames ++ (abs x b).names ++ around)
  exact hfresh (List.mem_append_left _ (List.mem_append_right _ hmem))

theorem substChecked_abs_of_not_mem {x y : Name} {r : Term} (hyx : y ≠ x)
    (hclash : y ∉ r.freeNames) (b : Term) :
    substChecked x r (abs y b) = (substChecked x r b).map (abs y) := by
  rw [substChecked, if_neg hyx, dif_neg hclash]

/-- An abstraction that clashes is renamed and taken up again. -/
theorem substChecked_abs_of_mem {x y : Name} {r : Term} (hyx : y ≠ x)
    (hclash : y ∈ r.freeNames) (b : Term) :
    let z := freshParam y b x r.freeNames
    substChecked x r (abs y b) = substChecked x r (abs z (b.rename y z)) := by
  intro z
  have hrename := alphaRename_of_not_mem (freshParam_not_mem_names y b x r.freeNames)
  rw [substChecked, if_neg hyx, dif_pos hclash]
  split
  · next e he =>
      rw [hrename] at he
      cases he
  · next u hu =>
      rw [hrename] at hu
      cases hu
      rfl

/-- **A substitution is not refused a name**, and comes to the one that does not
ask. -/
theorem substChecked_eq (x : Name) (r t : Term) :
    substChecked x r t = .ok (subst x r t) := by
  fun_induction subst x r t with
  | case1 => rw [substChecked, if_pos rfl]
  | case2 y hy => rw [substChecked, if_neg hy]
  | case3 b => rw [substChecked, if_pos rfl]
  | case4 y b hy hmem z ih =>
      obtain ⟨hzfree, -, hzx⟩ := freshParam_spec y b x r.freeNames
      rw [substChecked_abs_of_mem hy hmem, substChecked_abs_of_not_mem hzx hzfree, ih]
      rfl
  | case5 y b hy hmem ih =>
      rw [substChecked_abs_of_not_mem hy hmem, ih]
      rfl
  | case6 f a ihf iha =>
      rw [substChecked, ihf, iha]
      rfl

/-- **A contraction is not refused a name**, whatever the scope. -/
theorem contractChecked_eq (x : Name) (b a : Term) (s : Scope) :
    contractChecked x b a s = .ok (contract x b a s) := by
  unfold contractChecked contract
  split
  · rw [alphaRename_of_not_mem (redexParam_not_mem_names x b a s.names)]
    exact substChecked_eq _ a _
  · exact substChecked_eq x a b

/-! ## What is built on them -/

theorem stepChecked_eq (t : Term) : t.stepChecked = Checked.unrefused t.step := by
  refine respects_unrefused.step (fun x b a => ?_) t
  funext s
  show (liftM (contractChecked x b a s) : Checked Term) s = _
  rw [contractChecked_eq]
  rfl

end Term

namespace Environment

/-- Unfold the definitions in a term. -/
def expandChecked (env : Environment) (t : Term) : Checked Term := Walk.expand env t

theorem expandChecked_eq (env : Environment) (t : Term) :
    env.expandChecked t = Checked.unrefused (env.expand t) :=
  respects_unrefused.expand env t

end Environment

namespace Reducer

/-- A reduction by steps that cannot fail does not fail. -/
theorem reduceBy_pure {m : Type → Type} [Monad m] [LawfulMonad m] (n : Nat) (r : Reducer) :
    reduceBy (m := m) (fun t => pure t.stepTop) n r = pure (reduceNat n r) := by
  induction n generalizing r with
  | zero =>
      rw [reduceBy, pure_bind]
      rfl
  | succ n ih =>
      rw [reduceBy, stepBy, pure_bind, reduceNat_succ]
      cases hstep : r.term.stepTop with
      | some t =>
          rw [step_of_some hstep, pure_bind]
          exact ih _
      | none =>
          rw [step_of_none hstep, pure_bind]

/-- Contract at most `n` redexes, unless a renaming is refused. -/
def reduceNatChecked (n : Nat) (r : Reducer) : Except RenameError Reducer :=
  reduceBy (fun t => return (← t.stepChecked ∅).1) n r

theorem reduceNatChecked_eq (n : Nat) (r : Reducer) :
    reduceNatChecked n r = .ok (reduceNat n r) := by
  have hnext : (fun t : Term => do return (← t.stepChecked ∅).1 :
      Term → Except RenameError (Option Term)) = fun t => pure t.stepTop := by
    funext t
    rw [Term.stepChecked_eq]
    rfl
  unfold reduceNatChecked
  rw [hnext]
  exact reduceBy_pure n r

end Reducer

/-- Unfold the definitions in a term and contract at most `limit` redexes. -/
def Environment.evaluateChecked (env : Environment) (t : Term) (limit : Option Int) :
    Except RenameError Term := do
  let (unfolded, _) ← env.expandChecked t ∅
  let r ← Reducer.reduceNatChecked ((limit.map Int.toNat).getD Reducer.defaultPasses)
    { term := unfolded }
  return r.term

theorem Environment.evaluateChecked_eq (env : Environment) (t : Term)
    (limit : Option Int) : env.evaluateChecked t limit = .ok (env.evaluate t limit) := by
  rw [evaluateChecked, expandChecked_eq]
  show (Reducer.reduceNatChecked _ _ >>= fun r => _) = _
  rw [Reducer.reduceNatChecked_eq]
  rfl

/-- **The check of a new name is exact, and never refuses one on the way.**  Renaming
a parameter is refused exactly if the term is no abstraction over it or the new
name occurs in the term; otherwise it gives an abstraction over the new name that
is equal up to bound names and has the same free names.  And if substitutions,
steps, unfolding and evaluation rename parameters in no other way, they are not
refused a name, in any scope and any environment, and come to what they come to
without asking. -/
theorem alphaRename_exact_and_never_refused :
    (∀ (t : Term) (old new : Name),
      ((∃ e, t.alphaRename old new = .error e) ↔
          (¬ ∃ b, t = .abs old b) ∨ new ∈ t.names) ∧
        ∀ u, t.alphaRename old new = .ok u →
          (∃ b, u = .abs new b) ∧ u.alphaEq t = true ∧
            ∀ z, z ∈ u.freeNames ↔ z ∈ t.freeNames) ∧
      (∀ x r t, Term.substChecked x r t = .ok (Term.subst x r t)) ∧
      (∀ (t : Term) s, t.stepChecked s = .ok (t.step s)) ∧
      (∀ (env : Environment) t s, env.expandChecked t s = .ok (env.expand t s)) ∧
      ∀ (env : Environment) t limit,
        env.evaluateChecked t limit = .ok (env.evaluate t limit) := by
  refine ⟨fun t old new => ⟨t.alphaRename_eq_error_iff old new, fun u hu => ?_⟩,
    Term.substChecked_eq, fun t s => ?_, fun env t s => ?_,
    Environment.evaluateChecked_eq⟩
  · obtain ⟨b, -, -, hb⟩ := Term.alphaRename_eq_ok_iff.1 hu
    exact ⟨⟨_, hb⟩, (Term.alphaEq_iff u t).2 (Term.nameless_of_alphaRename hu),
      Term.mem_freeNames_of_alphaRename hu⟩
  · rw [Term.stepChecked_eq]
    rfl
  · rw [Environment.expandChecked_eq]
    rfl

end UntypedLambda
