import UntypedLambda.Scope

/-!
# Environments of definitions

An environment gives terms to names. Two questions are asked of it. What does a term stand
for when the defined names in it are unfolded (`expand`)? And is a name reached from a term
by following definitions (`reaches`), which decides whether a new definition would refer to
itself?

Unfolding looks at occurrences, not at terms: an occurrence is unfolded if its name has a
definition and no abstraction around it binds it, and the definition is unfolded in turn
below the same abstractions. So a definition can be unfolded inside itself, as `λf.f` is for
`f` where the count of `f` was negative to begin with, but not forever: a chain of
definitions that comes back to a name must have entered an abstraction over a name that was
not yet bound, or it would go round without end. Only so many such abstractions can be
entered before every defined name is bound (`slack`), and between two of them each name is
visited at most once. This gives the number of levels to which `expand` unfolds
(`levels`): a term that can be unfolded to the end at all is.

## Main statements

* `expand_of_isEmpty` : without definitions a term stands for itself and its scope is not
  touched.
* `size_lt_levels` : the levels are enough for a chain that visits every definition once.
-/

namespace UntypedLambda

/-- Terms given to names, in the order in which the names were first defined. -/
abbrev Environment := Table Name Term

namespace Environment

/-- How many abstractions over names of `env` can be entered in the scope `s` before all of
these names are bound. -/
def slack (env : Environment) (s : Scope) : Nat :=
  (env.keys.map fun x => (1 - s.count x).toNat).foldr (· + ·) 0

/-- A number of levels to which every definition can be unfolded that can be unfolded to the
end in the scope `s`, and one more to walk through the last one. -/
def levels (env : Environment) (s : Scope) : Nat := env.size * (env.slack s + 1) + 1

/-- There are more levels than definitions. -/
theorem size_lt_levels (env : Environment) (s : Scope) : env.size < env.levels s := by
  have hle : env.size ≤ env.size * (env.slack s + 1) :=
    Nat.le_mul_of_pos_right env.size (Nat.succ_pos (env.slack s))
  unfold levels
  omega

end Environment

namespace Walk

variable {m : Type → Type} [Monad m] [Walk m]

/-- Replace the unbound occurrences of names for which `unfold` has a replacement, in a
traversal of any kind. The replacement is computed in the scope of the occurrence. -/
@[specialize]
def mapUnbound (unfold : Name → Option (m Term)) : Term → m Term
  | .var x => do
      if (← look).isBound x then return .var x
      match unfold x with
      | none => return .var x
      | some replacement => replacement
  | .abs x b => do
      let b' ← within x (mapUnbound unfold b)
      return .abs x b'
  | .app f a => do
      let f' ← mapUnbound unfold f
      let a' ← mapUnbound unfold a
      return .app f' a'

/-- Unfold the definitions in a term to at most `depth` levels, the term's own level
counted as the first, in a traversal of any kind. -/
@[specialize]
def expandWithin (env : Environment) : Nat → Term → m Term
  | 0, t => pure t
  | depth + 1, t => mapUnbound (fun x => (env.get? x).map (expandWithin env depth)) t

/-- Unfold the definitions in a term, in a traversal of any kind. Without definitions the
scope is left alone. -/
@[specialize]
def expand (env : Environment) (t : Term) : m Term := do
  if env.isEmpty then return t
  expandWithin env (env.levels (← look)) t

end Walk

namespace Environment

/-- Unfold the definitions in a term to at most `depth` levels, the term's own level
counted as the first. -/
def expandWithin (env : Environment) (depth : Nat) (t : Term) : StateM Scope Term :=
  Walk.expandWithin env depth t

/-- Unfold the definitions in a term that stands in the scope carried as state. Without
definitions the scope is left alone. -/
def expand (env : Environment) (t : Term) : StateM Scope Term := Walk.expand env t

theorem expandWithin_succ (env : Environment) (depth : Nat) (t : Term) :
    env.expandWithin (depth + 1) t =
      Walk.mapUnbound (fun x => (env.get? x).map (env.expandWithin depth)) t := rfl

/-- Without definitions a term stands for itself, and its scope is not touched. -/
theorem expand_of_isEmpty (env : Environment) (t : Term) (henv : env.isEmpty) :
    env.expand t = pure t := by
  unfold expand Walk.expand
  rw [if_pos henv]

theorem expand_of_not_isEmpty {env : Environment} (henv : ¬ env.isEmpty) (t : Term)
    (s : Scope) : env.expand t s = env.expandWithin (env.levels s) t s := by
  unfold expand Walk.expand
  rw [if_neg henv]
  rfl

/-- What a term stands for at the top level. -/
def expandTop (env : Environment) (t : Term) : Term := (env.expand t ∅).1

/-- The number of definitions whose names have not been seen. -/
def unseen (env : Environment) (seen : List Name) : Nat :=
  (env.keys.filter fun x => x ∉ seen).length

theorem unseen_cons_lt (env : Environment) {seen : List Name} {x : Name}
    (hseen : x ∉ seen) (hdef : (env.get? x).isSome) :
    env.unseen (x :: seen) < env.unseen seen := by
  have hmem : x ∈ env.keys := (env.mem_keys_iff x).2 hdef
  have hsplit : (env.keys.filter fun y => y ∉ x :: seen) =
      (env.keys.filter fun y => y ∉ seen).filter fun y => y ≠ x := by
    rw [List.filter_filter]
    refine List.filter_congr fun y _ => ?_
    simp [List.mem_cons, not_or]
  unfold unseen
  rw [hsplit]
  have hx : x ∈ env.keys.filter fun y => y ∉ seen := by
    rw [List.mem_filter]
    exact ⟨hmem, by simpa using hseen⟩
  refine List.length_filter_lt_length_iff_exists.2 ⟨x, hx, by simp⟩

/-- Whether the search that still has the names `pending` to look at, and has already
followed the definitions of `seen`, comes to `goal`. The free names of a definition are
looked at in the order in which `listed` gives them. -/
def search (env : Environment) (listed : Term → List Name) (goal : Name) (seen : List Name) :
    List Name → Bool
  | [] => false
  | x :: rest =>
      if x = goal then true
      else if _hseen : x ∈ seen then env.search listed goal seen rest
      else match _hdef : env.get? x with
        | none => env.search listed goal seen rest
        | some t => env.search listed goal (x :: seen) (listed t ++ rest)
termination_by pending => (env.unseen seen, pending.length)
decreasing_by
  · exact Prod.Lex.right _ (Nat.lt_succ_self _)
  · exact Prod.Lex.right _ (Nat.lt_succ_self _)
  · exact Prod.Lex.left _ _ (env.unseen_cons_lt _hseen (by rw [_hdef]; rfl))

/-- Whether `goal` is free in `t` or in a definition that `t` leads to. -/
def reaches (env : Environment) (goal : Name) (t : Term) : Bool :=
  env.search Term.freeNames goal [] t.freeNames

end Environment

end UntypedLambda
