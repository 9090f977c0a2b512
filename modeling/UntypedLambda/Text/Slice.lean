/-!
# Pieces of a text

Positions in a text count characters from zero. A piece runs from one position up to, and
not including, another; positions past the end stand for the end, and a negative position
counts back from the end.

Texts are also cut at the first occurrence of a mark.
-/

namespace UntypedLambda.Text

/-- The position that `i` denotes in a text of the given length. -/
def position (i : Int) (length : Nat) : Nat :=
  if i < 0 then (length + i).toNat else min i.toNat length

/-- The piece of a text before a position. -/
def before (i : Int) (cs : List Char) : List Char := cs.take (position i cs.length)

/-- The piece of a text from a position on. -/
def after (i : Int) (cs : List Char) : List Char := cs.drop (position i cs.length)

/-- The piece of a text from one position up to another. -/
def between (i j : Int) (cs : List Char) : List Char :=
  (before j cs).drop (position i cs.length)

/-- What stands before and after the first occurrence of `mark`, if there is one. -/
def splitAt? (mark : List Char) : List Char → Option (List Char × List Char)
  | [] => if mark = [] then some ([], []) else none
  | c :: cs =>
      if mark.isPrefixOf (c :: cs) then some ([], (c :: cs).drop mark.length)
      else (splitAt? mark cs).map fun parts => (c :: parts.1, parts.2)

/-- A cut text is its two parts with the mark between them. -/
theorem eq_of_splitAt?_eq_some {mark cs left right : List Char}
    (hcut : splitAt? mark cs = some (left, right)) : cs = left ++ mark ++ right := by
  induction cs generalizing left with
  | nil =>
      simp only [splitAt?] at hcut
      split at hcut
      · next hmark => simp_all
      · cases hcut
  | cons c cs ih =>
      simp only [splitAt?] at hcut
      split at hcut
      · next hpre =>
          obtain ⟨rest, hrest⟩ := List.isPrefixOf_iff_prefix.1 hpre
          cases hcut
          rw [← hrest, List.nil_append, List.drop_left]
      · cases hparts : splitAt? mark cs with
        | none => rw [hparts] at hcut; cases hcut
        | some parts =>
            rw [hparts] at hcut
            cases hcut
            rw [List.cons_append, List.cons_append, ← ih hparts]

/-- A text is cut at the first occurrence of a character. -/
theorem splitAt?_append_of_not_mem {c : Char} {left : List Char} (hc : c ∉ left)
    (right : List Char) : splitAt? [c] (left ++ c :: right) = some (left, right) := by
  induction left with
  | nil => simp [splitAt?]
  | cons d left ih =>
      rw [List.mem_cons, not_or] at hc
      have hprefix : [c].isPrefixOf (d :: (left ++ c :: right)) = false := by
        simp [List.isPrefixOf, hc.1]
      rw [List.cons_append, splitAt?, hprefix, ih hc.2]
      rfl

end UntypedLambda.Text
