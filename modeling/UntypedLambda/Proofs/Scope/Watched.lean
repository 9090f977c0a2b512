import UntypedLambda.Proofs.Environment.Levels
import UntypedLambda.Proofs.Scope.Walks

/-!
# Every traversal gives its scope back

A traversal enters its scope at an abstraction, and leaving the abstraction sets the
count of the parameter to what it was.  A count of zero is set by forgetting the
name, which is only possible if there is a count to forget.

Here the traversals are watched (`Watched`): a scope comes with a record of the
abstractions that have been entered, each as its parameter with the count at that
moment, and the traversal fails where a name is to be forgotten that has no count.
None ever fails, and each gives its scope back (`GivesBack`) but for one thing: a
count that was there and zero is gone afterwards if an abstraction over the name was
entered while it was zero.  The counts may be negative to begin with.  Then an
abstraction inside another one over the same name may meet the count zero and forget
the name, and leaving the outer one brings it back.

## Main results

* `GivesBack.trans`, `GivesBack.within`: traversals in a row, and below an
  abstraction.
* `watches_freeNames`, `watches_step`, `watches_expandWithin`: the traversals.
* `traversals_give_scope_back`: all of them, in every scope.
-/

namespace UntypedLambda

/-! ## Scopes before and after a traversal -/

namespace Scope

theorem get?_enter (s : Scope) (x y : Name) :
    (s.enter x).counts.get? y =
      if x = y then some (s.count x + 1) else s.counts.get? y :=
  Table.get?_insert s.counts x y (s.count x + 1)

theorem get?_leave (s : Scope) (x y : Name) (prior : Int) :
    (s.leave x prior).counts.get? y =
      if x = y then (if prior = 0 then none else some prior) else s.counts.get? y := by
  unfold leave
  by_cases hprior : prior = 0
  · rw [if_pos hprior, if_pos hprior, Table.get?_erase]
  · rw [if_neg hprior, if_neg hprior, Table.get?_insert]

theorem count_of_get? {s : Scope} {x : Name} {n : Int} (h : s.counts.get? x = some n) :
    s.count x = n := by
  rw [count, h]
  rfl

theorem get?_of_mem_keys {s : Scope} {x : Name} (h : x ∈ s.counts.keys) :
    s.counts.get? x = some (s.count x) := by
  obtain ⟨n, hn⟩ := Option.isSome_iff_exists.1 ((s.counts.mem_keys_iff x).1 h)
  rw [hn, count_of_get? hn]

theorem mem_keys_of_get? {s : Scope} {x : Name} {n : Int}
    (h : s.counts.get? x = some n) : x ∈ s.counts.keys := by
  rw [Table.mem_keys_iff, h]
  rfl

theorem mem_keys_of_count_ne_zero {s : Scope} {x : Name} (h : s.count x ≠ 0) :
    x ∈ s.counts.keys := by
  rw [Table.mem_keys_iff]
  cases hget : s.counts.get? x with
  | none =>
      rw [count, hget] at h
      exact absurd rfl h
  | some n => rfl

theorem mem_keys_enter_iff {s : Scope} {x y : Name} (hxy : x ≠ y) :
    y ∈ (s.enter x).counts.keys ↔ y ∈ s.counts.keys := by
  rw [Table.mem_keys_iff, Table.mem_keys_iff, get?_enter, if_neg hxy]

theorem mem_keys_leave_iff {s : Scope} {x y : Name} (hxy : x ≠ y) (prior : Int) :
    y ∈ (s.leave x prior).counts.keys ↔ y ∈ s.counts.keys := by
  rw [Table.mem_keys_iff, Table.mem_keys_iff, get?_leave, if_neg hxy]

end Scope

/-- A traversal that has entered the abstractions `entered` gives its scope back:
every name has the count it had, what was counted and not zero is still there,
nothing new is, and a count that was zero is gone exactly if an abstraction over the
name was entered while it was. -/
structure GivesBack (before after : Scope) (entered : List (Name × Int)) : Prop where
  count : ∀ x, after.count x = before.count x
  kept : ∀ x n, n ≠ 0 → before.counts.get? x = some n → after.counts.get? x = some n
  noNew : ∀ x ∈ after.counts.keys, x ∈ before.counts.keys
  forgotten : ∀ x, before.counts.get? x = some 0 →
    (x ∉ after.counts.keys ↔ (x, 0) ∈ entered)

namespace GivesBack

theorem refl (s : Scope) : GivesBack s s [] where
  count _ := rfl
  kept _ _ _ h := h
  noNew _ h := h
  forgotten x h := by
    refine iff_of_false (fun hgone => hgone (Scope.mem_keys_of_get? h)) ?_
    exact List.not_mem_nil

/-- Of two traversals in a row, the second finds every zero that the first has left,
and brings none back that the first has forgotten. -/
theorem trans {s s' s'' : Scope} {entered entered' : List (Name × Int)}
    (h : GivesBack s s' entered) (h' : GivesBack s' s'' entered') :
    GivesBack s s'' (entered ++ entered') where
  count x := (h'.count x).trans (h.count x)
  kept x n hn hx := h'.kept x n hn (h.kept x n hn hx)
  noNew x hx := h.noNew x (h'.noNew x hx)
  forgotten x hx := by
    have hfirst := h.forgotten x hx
    rw [List.mem_append]
    by_cases hmem : x ∈ s'.counts.keys
    · have hzero : s'.counts.get? x = some 0 := by
        rw [Scope.get?_of_mem_keys hmem, h.count x, Scope.count_of_get? hx]
      have hnot : (x, 0) ∉ entered := fun hentered => hfirst.2 hentered hmem
      rw [h'.forgotten x hzero]
      exact ⟨Or.inr, fun hor => hor.resolve_left hnot⟩
    · exact iff_of_true (fun hx'' => hmem (h'.noNew x hx'')) (Or.inl (hfirst.1 hmem))

/-- The count that leaving an abstraction forgets is there. -/
theorem mem_keys_of_enter {s inner : Scope} {x : Name} {entered : List (Name × Int)}
    (h : GivesBack (s.enter x) inner entered) (hzero : s.count x = 0) :
    x ∈ inner.counts.keys := by
  apply Scope.mem_keys_of_count_ne_zero
  rw [h.count x, Scope.count_enter, if_pos rfl, hzero]
  decide

/-- Leaving an abstraction after a traversal of its body gives the scope back that the
abstraction was entered in. -/
theorem within {s inner : Scope} {x : Name} {entered : List (Name × Int)}
    (h : GivesBack (s.enter x) inner entered) :
    GivesBack s (inner.leave x (s.count x)) ((x, s.count x) :: entered) where
  count y := congrFun (Scope.count_leave_of_eq (funext h.count)) y
  kept y n hn hy := by
    rw [Scope.get?_leave]
    by_cases hxy : x = y
    · subst hxy
      rw [if_pos rfl, Scope.count_of_get? hy, if_neg hn]
    · rw [if_neg hxy]
      refine h.kept y n hn ?_
      rwa [Scope.get?_enter, if_neg hxy]
  noNew y hy := by
    by_cases hxy : x = y
    · subst hxy
      apply Scope.mem_keys_of_count_ne_zero
      intro hzero
      rw [Table.mem_keys_iff, Scope.get?_leave, if_pos rfl, if_pos hzero] at hy
      cases hy
    · rw [Scope.mem_keys_leave_iff hxy] at hy
      exact (Scope.mem_keys_enter_iff hxy).1 (h.noNew y hy)
  forgotten y hy := by
    by_cases hxy : x = y
    · subst hxy
      have hzero : s.count x = 0 := Scope.count_of_get? hy
      rw [hzero, Table.mem_keys_iff, Scope.get?_leave, if_pos rfl, if_pos rfl]
      exact iff_of_true (by simp) List.mem_cons_self
    · have hbody : y ∉ inner.counts.keys ↔ (y, 0) ∈ entered := by
        refine h.forgotten y ?_
        rwa [Scope.get?_enter, if_neg hxy]
      rw [Scope.mem_keys_leave_iff hxy, hbody, List.mem_cons]
      simp [Ne.symm hxy]

end GivesBack

/-! ## Watched traversals -/

/-- A scope and the abstractions that have been entered, in that order, each with the
count that its parameter had. -/
structure Watch where
  scope : Scope
  entered : List (Name × Int)

/-- A traversal that is watched.  It fails with the name that is to be forgotten where
there is no count to forget. -/
abbrev Watched := StateT Watch (Except Name)

namespace Watched

variable {α β : Type}

/-- The scope. -/
def look : Watched Scope := fun w => .ok (w.scope, w)

/-- Carry out a traversal inside an abstraction over `x`. -/
def within (x : Name) (body : Watched α) : Watched α := fun w => do
  let prior := w.scope.count x
  let (a, inner) ← body ⟨w.scope.enter x, w.entered ++ [(x, prior)]⟩
  if prior = 0 ∧ x ∉ inner.scope.counts.keys then throw x
  return (a, ⟨inner.scope.leave x prior, inner.entered⟩)

instance : Walk Watched where
  look := look
  within := within

/-- From every scope, the watched traversal `w` does not fail, comes to what `m` comes
to, and gives the scope back. -/
def Watches (w : Watched α) (m : StateM Scope α) : Prop :=
  ∀ s log, ∃ entered,
    w ⟨s, log⟩ = .ok ((m s).1, ⟨(m s).2, log ++ entered⟩) ∧
      GivesBack s (m s).2 entered

theorem Watches.pure (a : α) : Watches (pure a) (pure a) := by
  intro s log
  refine ⟨[], ?_, .refl s⟩
  rw [List.append_nil]
  rfl

theorem watches_look : Watches look get := by
  intro s log
  refine ⟨[], ?_, .refl s⟩
  rw [List.append_nil]
  rfl

theorem Watches.bind {w : Watched α} {m : StateM Scope α} {w' : α → Watched β}
    {m' : α → StateM Scope β} (h : Watches w m) (h' : ∀ a, Watches (w' a) (m' a)) :
    Watches (w >>= w') (m >>= m') := by
  intro s log
  obtain ⟨entered, hrun, hback⟩ := h s log
  obtain ⟨entered', hrun', hback'⟩ := h' (m s).1 (m s).2 (log ++ entered)
  refine ⟨entered ++ entered', ?_, hback.trans hback'⟩
  show (w ⟨s, log⟩ >>= fun r => w' r.1 r.2) = _
  rw [hrun, ← List.append_assoc]
  exact hrun'

theorem Watches.within {w : Watched α} {m : StateM Scope α} (h : Watches w m)
    (x : Name) : Watches (within x w) (Scope.within x m) := by
  intro s log
  obtain ⟨entered, hrun, hback⟩ := h (s.enter x) (log ++ [(x, s.count x)])
  refine ⟨(x, s.count x) :: entered, ?_, hback.within⟩
  have hthere : ¬ (s.count x = 0 ∧ x ∉ (m (s.enter x)).2.counts.keys) :=
    fun hmissing => hmissing.2 (hback.mem_keys_of_enter hmissing.1)
  show (w ⟨s.enter x, log ++ [(x, s.count x)]⟩ >>= fun r => _) = _
  rw [hrun]
  show (if s.count x = 0 ∧ x ∉ (m (s.enter x)).2.counts.keys then _ else _ :
    Except Name _) = _
  rw [if_neg hthere, List.append_assoc]
  rfl

/-- A watched traversal is put together from what gives its scope back. -/
theorem respects_watches :
    Walk.Respects (m := Watched) (n := StateM Scope) fun _ => Watches where
  pure := .pure
  bind := .bind
  look := watches_look
  within := .within

end Watched

open Watched (Watches respects_watches)

/-! ## The traversals -/

namespace Term

/-- The names with an occurrence that no abstraction binds. -/
def freeNamesWatched (t : Term) : Watched (List Name) := Walk.freeNames t

/-- Contract the leftmost outermost redex of a term, if there is one. -/
def stepWatched (t : Term) : Watched (Option Term) := Walk.step Walk.contract t

theorem watches_freeNames (t : Term) : Watches t.freeNamesWatched t.freeNamesWithin :=
  respects_watches.freeNames t

theorem watches_step (t : Term) : Watches t.stepWatched t.step :=
  respects_watches.step (fun _ _ _ => respects_watches.contract _ _ _) t

end Term

namespace Environment

/-- Unfold the definitions in a term to at most `depth` levels. -/
def expandWithinWatched (env : Environment) (depth : Nat) (t : Term) : Watched Term :=
  Walk.expandWithin env depth t

/-- Unfold the definitions in a term. -/
def expandWatched (env : Environment) (t : Term) : Watched Term := Walk.expand env t

theorem watches_expandWithin (env : Environment) (depth : Nat) (t : Term) :
    Watches (env.expandWithinWatched depth t) (env.expandWithin depth t) :=
  respects_watches.expandWithin env depth t

theorem watches_expand (env : Environment) (t : Term) :
    Watches (env.expandWatched t) (env.expand t) :=
  respects_watches.expand env t

end Environment

/-- **Every traversal gives its scope back**, whatever the counts in it: the analysis
of free names, a step, and unfolding, which in an acyclic environment ends in every
scope and before the last level, so that no other unfolding is left out. -/
theorem traversals_give_scope_back (t : Term) :
    Watches t.freeNamesWatched t.freeNamesWithin ∧
      Watches t.stepWatched t.step ∧
      ∀ env : Environment, env.Acyclic →
        Watches (env.expandWatched t) (env.expand t) ∧
          (∀ depth, Watches (env.expandWithinWatched depth t) (env.expandWithin depth t)) ∧
          ∀ s, Acc env.CalledBy (t, s) ∧
            ∀ depth, env.levels s ≤ depth →
              env.expandWithin depth t s = env.expandWithin (env.levels s) t s := by
  refine ⟨t.watches_freeNames, t.watches_step, fun env hacyclic => ?_⟩
  refine ⟨env.watches_expand t, fun depth => env.watches_expandWithin depth t,
    fun s => ?_⟩
  exact ⟨Environment.calledBy_acc hacyclic t s, fun depth hdepth =>
    Environment.expandWithin_of_levels_le hacyclic hdepth t⟩

/-- The count of `f` is negative, so its definition is unfolded inside itself.  The
inner abstraction over `f` meets the count zero and forgets it, the outer one brings
it back; the zero of `g` is gone and that of `h` is not. -/
theorem traversals_give_scope_back_negative :
    let env : Environment := Table.insert ∅ "f" (.abs "f" (.var "f"))
    let s := Scope.ofCounts [("f", -1), ("g", 0), ("h", 0)]
    let t := Term.app (.var "f") (.abs "g" (.var "h"))
    let entered := [("f", -1), ("f", 0), ("g", 0)]
    env.Acyclic ∧
      (∃ after, env.expandWatched t ⟨s, []⟩ =
          .ok (.app (.abs "f" (.abs "f" (.var "f"))) (.abs "g" (.var "h")),
            ⟨after, entered⟩) ∧
        GivesBack s after entered ∧ after.counts.keys = ["h", "f"]) := by
  intro env s t entered
  have hself : Environment.reaches ∅ "f" (.abs "f" (.var "f")) = false := by cbv
  have hacyclic : env.Acyclic :=
    Environment.acyclic_insert_of_reaches Environment.acyclic_empty hself
  obtain ⟨entered', hrun, hback⟩ :=
    ((traversals_give_scope_back t).2.2 env hacyclic).1 s []
  have hresult : (env.expand t s).1 =
      .app (.abs "f" (.abs "f" (.var "f"))) (.abs "g" (.var "h")) := by decide +kernel
  have hkeys : (env.expand t s).2.counts.keys = ["h", "f"] := by decide +kernel
  have hentered : (env.expandWatched t ⟨s, []⟩).map (fun r => r.2.entered) =
      .ok entered := by decide +kernel
  rw [hrun] at hentered
  have hrecord : entered' = entered := Except.ok.inj hentered
  rw [hrecord] at hback
  rw [hrecord, hresult] at hrun
  exact ⟨hacyclic, _, hrun, hback, hkeys⟩

end UntypedLambda
