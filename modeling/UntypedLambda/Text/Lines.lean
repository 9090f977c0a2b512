/-!
# Physical lines

A line ends at a line feed, at a carriage return, or at a carriage return followed by a line
feed. No other character ends a line. What follows the last line end is a line of its own
unless it is empty.

## Main statement

* `not_mem_of_mem_lines` : no line holds a line feed or a carriage return.
-/

namespace UntypedLambda.Text

/-- Put a character in front of the first line. -/
def consLine (c : Char) : List (List Char) → List (List Char)
  | [] => [[c]]
  | line :: rest => (c :: line) :: rest

/-- The lines of a text, without their ends. -/
def lines : List Char → List (List Char)
  | [] => []
  | '\r' :: '\n' :: rest => [] :: lines rest
  | '\r' :: rest => [] :: lines rest
  | '\n' :: rest => [] :: lines rest
  | c :: rest => consLine c (lines rest)

/-- No line holds a line feed or a carriage return. -/
theorem not_mem_of_mem_lines (cs : List Char) :
    ∀ line ∈ lines cs, '\n' ∉ line ∧ '\r' ∉ line := by
  fun_induction lines cs with
  | case1 => simp
  | case2 rest ih => simpa using ih
  | case3 rest _ ih => simpa using ih
  | case4 rest ih => simpa using ih
  | case5 c rest _ hr hn ih =>
      have hc : c ≠ '\n' ∧ c ≠ '\r' := ⟨hn, hr⟩
      intro line hline
      cases hls : lines rest with
      | nil =>
          rw [hls] at hline
          simp only [consLine, List.mem_singleton] at hline
          subst hline
          simp [hc.1.symm, hc.2.symm]
      | cons l ls =>
          rw [hls] at hline ih
          simp only [consLine, List.mem_cons] at hline
          rcases hline with hline | hline
          · subst hline
            have hl := ih l List.mem_cons_self
            simp [hc.1.symm, hc.2.symm, hl.1, hl.2]
          · exact ih line (List.mem_cons_of_mem _ hline)

end UntypedLambda.Text
