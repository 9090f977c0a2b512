import UntypedLambda.Proofs.Environment.Unfolding
import UntypedLambda.Proofs.Reduction.Completeness

/-!
# The names that evaluation brings in

Evaluation takes the names of its result from the term and from the definitions
it unfolds, or makes them out of these by appending marks.  So a property of
names that a mark does not take away, such as being a name that can be written,
is kept through renaming, substitution, contraction, any number of steps, and
unfolding.

## Main results

* `forall_names_subst`, `forall_names_step`, `forall_names_reduceNat`: the names
  of a term after substitution, a step, and reduction.
* `Unfolds.forall_names`: the names of what a term stands for.
-/

namespace UntypedLambda

/-- A mark does not take the property away from a name. -/
def KeptByMark (P : Name → Prop) : Prop := ∀ x, P x → P (x ++ mark)

variable {P : Name → Prop}

theorem KeptByMark.fresh (hP : KeptByMark P) {x : Name} (hx : P x)
    (avoid : List Name) : P (fresh x avoid) := by
  fun_induction UntypedLambda.fresh x avoid with
  | case1 x avoid hmem ih => exact ih (hP x hx)
  | case2 => exact hx

namespace Term

theorem forall_names_rename {old new : Name} {t : Term} (hnew : P new)
    (ht : ∀ z ∈ t.names, P z) : ∀ z ∈ (t.rename old new).names, P z := by
  induction t with
  | var x =>
      rw [rename]
      split
      · simpa [names] using hnew
      · exact ht
  | abs x b ih =>
      rw [names, List.forall_mem_cons] at ht
      rw [rename]
      split
      · simpa [names] using ht
      · simpa [names] using And.intro ht.1 (ih ht.2)
  | app f a ihf iha =>
      rw [names, List.forall_mem_append] at ht
      rw [rename, names, List.forall_mem_append]
      exact ⟨ihf ht.1, iha ht.2⟩

/-- Substitution brings in the names of the replacement and fresh ones. -/
theorem forall_names_subst (hP : KeptByMark P) {x : Name} {r t : Term}
    (hr : ∀ z ∈ r.names, P z) (ht : ∀ z ∈ t.names, P z) :
    ∀ z ∈ (subst x r t).names, P z := by
  fun_induction subst x r t with
  | case1 => exact hr
  | case2 => exact ht
  | case3 => exact ht
  | case4 y b hy hmem z ih =>
      rw [names, List.forall_mem_cons] at ht ⊢
      have hz : P z := hP.fresh ht.1 _
      exact ⟨hz, ih (forall_names_rename hz ht.2)⟩
  | case5 y b hy hmem ih =>
      rw [names, List.forall_mem_cons] at ht ⊢
      exact ⟨ht.1, ih ht.2⟩
  | case6 f a ihf iha =>
      rw [names, List.forall_mem_append] at ht ⊢
      exact ⟨ihf ht.1, iha ht.2⟩

theorem forall_names_contract (hP : KeptByMark P) {x : Name} {b a : Term}
    (hx : P x) (hb : ∀ z ∈ b.names, P z) (ha : ∀ z ∈ a.names, P z) (s : Scope) :
    ∀ z ∈ (contract x b a s).names, P z := by
  unfold contract
  split
  · have hparam : P (redexParam x b a s.names) := hP.fresh hx _
    exact forall_names_subst hP ha (forall_names_rename hparam hb)
  · exact forall_names_subst hP ha hb

/-- A step brings in fresh names only. -/
theorem forall_names_step (hP : KeptByMark P) {t u : Term} {s : Scope}
    (ht : ∀ z ∈ t.names, P z) (hstep : (t.step s).1 = some u) :
    ∀ z ∈ u.names, P z := by
  induction t generalizing s u with
  | var x => cases hstep
  | abs x b ih =>
      rw [names, List.forall_mem_cons] at ht
      rw [step_abs] at hstep
      obtain ⟨b', hb', rfl⟩ := Option.map_eq_some_iff.1 hstep
      rw [names, List.forall_mem_cons]
      exact ⟨ht.1, ih ht.2 hb'⟩
  | app f a ihf iha =>
      rw [names, List.forall_mem_append] at ht
      by_cases hf : ∃ x b, f = abs x b
      · obtain ⟨x, b, rfl⟩ := hf
        rw [step_redex] at hstep
        cases hstep
        have hfn := ht.1
        rw [names, List.forall_mem_cons] at hfn
        exact forall_names_contract hP hfn.1 hfn.2 ht.2 s
      · rw [step_app hf] at hstep
        split at hstep
        · next f' hf' =>
            cases hstep
            rw [names, List.forall_mem_append]
            exact ⟨ihf ht.1 hf', ht.2⟩
        · obtain ⟨a', ha', rfl⟩ := Option.map_eq_some_iff.1 hstep
          rw [names, List.forall_mem_append]
          exact ⟨ht.1, iha ht.2 ha'⟩

end Term

/-- Reduction brings in fresh names only. -/
theorem Reducer.forall_names_reduceNat (hP : KeptByMark P) (n : Nat)
    {r : Reducer} (hr : ∀ z ∈ r.term.names, P z) :
    ∀ z ∈ (reduceNat n r).term.names, P z := by
  induction n generalizing r with
  | zero => exact hr
  | succ n ih =>
      cases hstep : r.term.stepTop with
      | none =>
          rw [reduceNat_succ, step_of_none hstep]
          exact hr
      | some t =>
          rw [reduceNat_succ, step_of_some hstep]
          exact ih (Term.forall_names_step hP hr hstep)

/-- The names of what a term stands for are its own and those of definitions. -/
theorem Environment.Unfolds.forall_names {env : Environment}
    (henv : ∀ k d, env.get? k = some d → ∀ z ∈ d.names, P z)
    {ctx : List Name} {t u : Term} (h : env.Unfolds ctx t u)
    (ht : ∀ z ∈ t.names, P z) : ∀ z ∈ u.names, P z := by
  induction h with
  | bound => exact ht
  | undefined => exact ht
  | defined _ hdef _ ih => exact ih (henv _ _ hdef)
  | abs _ ih =>
      rw [Term.names, List.forall_mem_cons] at ht ⊢
      exact ⟨ht.1, ih ht.2⟩
  | app _ _ ihf iha =>
      rw [Term.names, List.forall_mem_append] at ht ⊢
      exact ⟨ihf ht.1, iha ht.2⟩

end UntypedLambda
