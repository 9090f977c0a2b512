import Mathlib.Data.Finset.Card
import Mathlib.Data.Finset.Dedup
import Mathlib.Order.Bounds.Basic
import UntypedLambda.Term.Fresh

/-!
# The search for a fresh name

A name is made fresh by a loop: as long as it is in the set of names to be avoided,
a mark is appended.  Nothing in the loop gets smaller, since the name grows and the
set stays as it is.  It ends all the same: the names it tries have different
lengths, so each round uses up another element of the set.

`fresh` strikes every name that has been tried from the set, which is how its
recursion ends.  A struck name is shorter than those still to be tried and is never
asked for again, so the result is that of the loop.

## Main results

* `freshSearch_iff`: a run of the loop appends the least number of marks that leads
  out of the set.
* `FreshSearch.le_card`: it goes round at most once for each element of the set.
* `fresh_congr`: a list of names to be avoided stands for a set.
* `fresh_least_marks`: the loop ends, and `fresh` is where it does.
-/

namespace UntypedLambda

/-! ## Names with marks -/

/-- The name `x` with `k` marks appended. -/
def marked (x : Name) (k : Nat) : Name := x ++ String.join (List.replicate k mark)

@[simp] theorem marked_zero (x : Name) : marked x 0 = x := String.append_empty

/-- Further marks are appended to the name with its first mark. -/
theorem marked_succ (x : Name) (k : Nat) : marked x (k + 1) = marked (x ++ mark) k := by
  rw [marked, List.replicate_succ, String.join_cons, ← String.append_assoc, marked]

@[simp] theorem length_marked (x : Name) (k : Nat) : (marked x k).length = x.length + k := by
  induction k generalizing x with
  | zero => rw [marked_zero, Nat.add_zero]
  | succ k ih =>
      rw [marked_succ, ih, String.length_append, length_mark]
      omega

/-- Names with different numbers of marks are different. -/
theorem marked_injective (x : Name) : Function.Injective (marked x) := by
  intro k n h
  have hlength := congrArg String.length h
  rw [length_marked, length_marked] at hlength
  omega

/-! ## Runs of the loop -/

/-- The loop that looks for a name outside `avoid`: from `x` it goes round `n` times
and ends at `y`.  The set is the same in every round. -/
inductive FreshSearch (avoid : List Name) : Name → Nat → Name → Prop
  | done {x : Name} (hx : x ∉ avoid) : FreshSearch avoid x 0 x
  | round {x y : Name} {n : Nat} (hx : x ∈ avoid)
      (hrest : FreshSearch avoid (x ++ mark) n y) : FreshSearch avoid x (n + 1) y

variable {x y : Name} {n : Nat} {avoid avoid' : List Name}

/-- No marks are needed for a name outside the set. -/
theorem isLeast_marked_zero_iff :
    IsLeast {k | marked x k ∉ avoid} 0 ↔ x ∉ avoid := by
  constructor
  · rintro ⟨hout, -⟩
    rwa [Set.mem_ofPred_eq, marked_zero] at hout
  · intro hx
    refine ⟨?_, fun k _ => Nat.zero_le k⟩
    rwa [Set.mem_ofPred_eq, marked_zero]

/-- A name in the set needs one mark more than the name with a mark does. -/
theorem isLeast_marked_succ_iff :
    IsLeast {k | marked x k ∉ avoid} (n + 1) ↔
      x ∈ avoid ∧ IsLeast {k | marked (x ++ mark) k ∉ avoid} n := by
  constructor
  · rintro ⟨hout, hleast⟩
    have hx : x ∈ avoid := by
      by_contra hx
      have hle : n + 1 ≤ 0 := hleast (show marked x 0 ∉ avoid by rwa [marked_zero])
      omega
    refine ⟨hx, ?_, fun k hk => ?_⟩
    · rwa [Set.mem_ofPred_eq, marked_succ] at hout
    · rw [Set.mem_ofPred_eq, ← marked_succ] at hk
      exact Nat.le_of_succ_le_succ (hleast hk)
  · rintro ⟨hx, hout, hleast⟩
    refine ⟨?_, fun k hk => ?_⟩
    · rwa [Set.mem_ofPred_eq, marked_succ]
    · cases k with
      | zero =>
          rw [Set.mem_ofPred_eq, marked_zero] at hk
          exact absurd hx hk
      | succ k =>
          rw [Set.mem_ofPred_eq, marked_succ] at hk
          exact Nat.succ_le_succ (hleast hk)

/-- **What a run does.**  It appends the least number of marks that leads out of the
set, one in each round. -/
theorem freshSearch_iff :
    FreshSearch avoid x n y ↔
      y = marked x n ∧ IsLeast {k | marked x k ∉ avoid} n := by
  constructor
  · intro h
    induction h with
    | @done x hx => exact ⟨(marked_zero x).symm, isLeast_marked_zero_iff.2 hx⟩
    | @round x y n hx _ ih =>
        rw [marked_succ]
        exact ⟨ih.1, isLeast_marked_succ_iff.2 ⟨hx, ih.2⟩⟩
  · rintro ⟨rfl, hleast⟩
    induction n generalizing x with
    | zero =>
        rw [marked_zero]
        exact .done (isLeast_marked_zero_iff.1 hleast)
    | succ n ih =>
        obtain ⟨hx, hrest⟩ := isLeast_marked_succ_iff.1 hleast
        rw [marked_succ]
        exact .round hx (ih hrest)

/-- There is at most one run from a name. -/
theorem FreshSearch.unique {n' : Nat} {y' : Name} (h : FreshSearch avoid x n y)
    (h' : FreshSearch avoid x n' y') : n = n' ∧ y = y' := by
  obtain ⟨rfl, hleast⟩ := freshSearch_iff.1 h
  obtain ⟨rfl, hleast'⟩ := freshSearch_iff.1 h'
  have hn : n = n' := hleast.unique hleast'
  exact ⟨hn, congrArg (marked x) hn⟩

/-- Only the names with marks matter to a run. -/
theorem FreshSearch.congr (h : FreshSearch avoid x n y)
    (hagree : ∀ k, marked x k ∈ avoid ↔ marked x k ∈ avoid') :
    FreshSearch avoid' x n y := by
  rw [freshSearch_iff] at h ⊢
  simpa only [hagree] using h

/-- **Pigeonhole.**  The names that are tried before the last one are different
elements of the set, so there are no more rounds than elements. -/
theorem FreshSearch.le_card (h : FreshSearch avoid x n y) : n ≤ avoid.toFinset.card := by
  obtain ⟨-, -, hleast⟩ := freshSearch_iff.1 h
  have htried : ∀ k ∈ Finset.range n, marked x k ∈ avoid.toFinset := by
    intro k hk
    rw [List.mem_toFinset]
    by_contra hout
    have hlt := Finset.mem_range.1 hk
    have hle : n ≤ k := hleast hout
    omega
  calc
    n = (Finset.range n).card := (Finset.card_range n).symm
    _ ≤ avoid.toFinset.card :=
      Finset.card_le_card_of_injOn (marked x) htried (marked_injective x).injOn

/-! ## The result -/

/-- The loop has a run, and it ends at the fresh name. -/
theorem exists_freshSearch (x : Name) (avoid : List Name) :
    ∃ n, FreshSearch avoid x n (fresh x avoid) := by
  fun_induction fresh x avoid with
  | case1 x avoid hx ih =>
      obtain ⟨n, hrest⟩ := ih
      refine ⟨n + 1, .round hx (hrest.congr fun k => List.mem_erase_of_ne ?_)⟩
      -- The struck name is too short to be tried again.
      rw [← marked_succ]
      intro heq
      have hlength := congrArg String.length heq
      rw [length_marked] at hlength
      omega
  | case2 x avoid hx => exact ⟨0, .done hx⟩

/-- In what order the names to be avoided are listed, and how often, does not
matter. -/
theorem fresh_congr (x : Name) (hset : ∀ z, z ∈ avoid ↔ z ∈ avoid') :
    fresh x avoid = fresh x avoid' := by
  obtain ⟨_, hrun⟩ := exists_freshSearch x avoid
  obtain ⟨_, hrun'⟩ := exists_freshSearch x avoid'
  exact ((hrun.congr fun k => hset (marked x k)).unique hrun').2

/-- **The search ends at the least fresh candidate.**  From every name and for every
finite set, the loop has exactly one run.  It goes round at most as many times as
the set has elements, and its result is the name with as many marks as rounds,
which is the least number of marks that leads out of the set. -/
theorem fresh_least_marks (x : Name) (avoid : List Name) :
    ∃ k ≤ avoid.toFinset.card,
      (∀ n y, FreshSearch avoid x n y ↔ n = k ∧ y = fresh x avoid) ∧
        fresh x avoid = marked x k ∧ IsLeast {n | marked x n ∉ avoid} k := by
  obtain ⟨k, hrun⟩ := exists_freshSearch x avoid
  obtain ⟨hmarked, hleast⟩ := freshSearch_iff.1 hrun
  refine ⟨k, hrun.le_card, fun n y => ⟨fun h => h.unique hrun, ?_⟩, hmarked, hleast⟩
  rintro ⟨rfl, rfl⟩
  exact hrun

/-- Three names are avoided and three marks are needed. -/
example : fresh "x" ["x", "x''", "x'", "x"] = "x'''" := by cbv

end UntypedLambda
