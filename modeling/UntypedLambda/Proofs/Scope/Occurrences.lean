import UntypedLambda.Proofs.Environment.Resolution

/-!
# Free names and occurrences

The analysis of free names carries one scope through the whole term, enters it at
each abstraction and gives it back afterwards.  Said of occurrences, none of this
shows: an occurrence of a name is free if the count that the name has around the
term, together with the number of abstractions over it inside the term that the
occurrence stands below, is not positive.  A count may be negative to begin with,
and then that many abstractions over the name bind nothing.

`Term.occurrences` lists what this refers to, each occurrence with the parameters
of the abstractions around it.

## Main results

* `mem_freeNamesWithin_iff_occurrence`: free names in a scope and occurrences.
* `mem_freeNamesUnder_iff_occurrence`: the same for counts from outside, handed in
  as they are or as a scope.
-/

namespace UntypedLambda

namespace Term

/-! ## Occurrences -/

/-- The occurrences of names as variables, each with the parameters of the
abstractions around it, from the outermost one to the innermost. -/
def occurrences : Term → List (Name × List Name)
  | var x => [(x, [])]
  | abs x b => b.occurrences.map fun o => (o.1, x :: o.2)
  | app f a => f.occurrences ++ a.occurrences

/-- An occurrence of `x` that a scope does not bind, and that the abstractions of
the term do not bind in it. -/
def OccursFree (s : Scope) (x : Name) (t : Term) : Prop :=
  ∃ params, (x, params) ∈ t.occurrences ∧ s.count x + params.count x ≤ 0

theorem occursFree_var_iff (s : Scope) (x y : Name) :
    OccursFree s x (var y) ↔ x = y ∧ s.count x ≤ 0 := by
  simp [OccursFree, occurrences, and_assoc]

/-- Below an abstraction an occurrence is free as in the body, once the abstraction
has been entered. -/
theorem occursFree_abs_iff (s : Scope) (x y : Name) (b : Term) :
    OccursFree s x (abs y b) ↔ OccursFree (s.enter y) x b := by
  have hcount : ∀ params : List Name,
      s.count x + (y :: params).count x = (s.enter y).count x + params.count x := by
    intro params
    rw [Scope.count_enter, List.count_cons]
    by_cases hyx : y = x
    · simp [hyx]
      omega
    · simp [hyx]
  constructor
  · rintro ⟨params, hmem, hle⟩
    obtain ⟨⟨x', inner⟩, hinner, hparams⟩ := List.mem_map.1 hmem
    cases hparams
    rw [hcount] at hle
    exact ⟨inner, hinner, hle⟩
  · rintro ⟨inner, hinner, hle⟩
    rw [← hcount] at hle
    exact ⟨y :: inner, List.mem_map.2 ⟨(x, inner), hinner, rfl⟩, hle⟩

theorem occursFree_app_iff (s : Scope) (x : Name) (f a : Term) :
    OccursFree s x (app f a) ↔ OccursFree s x f ∨ OccursFree s x a := by
  simp [OccursFree, occurrences, or_and_right, exists_or]

/-- Whether an occurrence is free depends on the counts only. -/
theorem occursFree_congr {s s' : Scope} (hcount : s'.count = s.count) (x : Name)
    (t : Term) : OccursFree s' x t ↔ OccursFree s x t := by
  rw [OccursFree, OccursFree, hcount]

/-- The free names in a scope are those with a free occurrence. -/
theorem mem_freeNamesWithin_iff_occurrence (s : Scope) (t : Term) (x : Name) :
    x ∈ (t.freeNamesWithin s).1 ↔ OccursFree s x t := by
  induction t generalizing s with
  | var y =>
      rw [freeNamesWithin_var, occursFree_var_iff, Scope.isBound]
      by_cases hbound : s.count y > 0
      · rw [if_pos (decide_eq_true hbound)]
        refine iff_of_false List.not_mem_nil fun h => ?_
        rw [h.1] at h
        omega
      · rw [if_neg (by simpa using hbound), List.mem_singleton]
        refine ⟨fun h => ⟨h, ?_⟩, And.left⟩
        rw [h]
        omega
  | abs y b ih => rw [freeNamesWithin_abs, ih, occursFree_abs_iff]
  | app f a ihf iha =>
      have hafter := occursFree_congr (count_freeNamesWithin f s) x a
      rw [freeNamesWithin_app, List.mem_append, ihf, iha, hafter, occursFree_app_iff]

/-- Without surroundings, those names are free that `freeNames` lists. -/
theorem mem_freeNamesUnder_unknown (t : Term) (x : Name) :
    x ∈ t.freeNamesUnder .unknown ↔ x ∈ t.freeNames := by
  rw [freeNamesUnder, Surroundings.toScope, mem_freeNamesWithin Scope.binds_empty]
  simp

/-- **Free names and occurrences.**  Whatever the counts of the surroundings, also
negative ones, a name is free exactly if it has an occurrence such that its count
and the number of abstractions over it around the occurrence come to at most zero.
It makes no difference whether the counts are handed in as they are or as a
scope. -/
theorem mem_freeNamesUnder_iff_occurrence (t : Term) (counts : Table Name Int)
    (x : Name) :
    (x ∈ t.freeNamesUnder (.counts counts) ↔
        ∃ params, (x, params) ∈ t.occurrences ∧
          (counts.get? x).getD 0 + params.count x ≤ 0) ∧
      t.freeNamesUnder (.scope ⟨counts⟩) = t.freeNamesUnder (.counts counts) := by
  have hscope : (Surroundings.counts counts).toScope = ⟨counts⟩ :=
    Surroundings.toScope_counts counts
  constructor
  · rw [freeNamesUnder, hscope]
    exact mem_freeNamesWithin_iff_occurrence ⟨counts⟩ t x
  · rw [freeNamesUnder, freeNamesUnder, hscope]
    rfl

end Term

end UntypedLambda
