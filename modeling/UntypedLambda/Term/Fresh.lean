import UntypedLambda.Term.Basic

/-!
# Fresh names

A name is made fresh for a finite set of names by appending marks to it until it is
outside the set: `x`, `x'`, `x''`, and so on. Each mark makes the name longer, so a name
that has been tried and found in the set can be struck from it before the next one is
tried; the set shrinks, and the search ends.

## Main statement

* `fresh_not_mem` : the result is outside the set.
-/

namespace UntypedLambda

/-- The mark that is appended to a name to make another. -/
def mark : String := "'"

/-- The first of `x`, `x'`, `x''`, … that is not in `avoid`. -/
def fresh (x : Name) (avoid : List Name) : Name :=
  if _hx : x ∈ avoid then fresh (x ++ mark) (avoid.erase x) else x
termination_by avoid.length
decreasing_by
  rw [List.length_erase_of_mem _hx]
  have := List.length_pos_of_mem _hx
  omega

theorem length_mark : mark.length = 1 := rfl

/-- A fresh name is never shorter than the name it was made from. -/
theorem length_le_length_fresh (x : Name) (avoid : List Name) :
    x.length ≤ (fresh x avoid).length := by
  fun_induction fresh x avoid with
  | case1 x avoid hx ih =>
      rw [String.length_append, length_mark] at ih
      omega
  | case2 => exact Nat.le_refl _

/-- **Freshness.** The result of the search is not in the set. -/
theorem fresh_not_mem (x : Name) (avoid : List Name) : fresh x avoid ∉ avoid := by
  fun_induction fresh x avoid with
  | case1 x avoid hx ih =>
      have hlen := length_le_length_fresh (x ++ mark) (avoid.erase x)
      rw [String.length_append, length_mark] at hlen
      have hne : fresh (x ++ mark) (avoid.erase x) ≠ x := by
        intro heq
        rw [heq] at hlen
        omega
      exact fun hmem => ih ((List.mem_erase_of_ne hne).2 hmem)
  | case2 x avoid hx => exact hx

end UntypedLambda
