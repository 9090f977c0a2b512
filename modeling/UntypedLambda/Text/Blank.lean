/-!
# Blank characters

Blank characters separate words and stand at the ends of lines. They are the Unicode white
space characters and the four separators U+001C to U+001F; no-width characters such as
U+200B and U+FEFF are not among them.

A text is trimmed of blanks at its end (`trimRight`) or at both ends (`trim`).

## Main statement

* `trimRight_append` : trimming at the end removes a run of blanks and nothing else.
-/

namespace UntypedLambda.Text

/-- The blank characters, as closed ranges of code points, ascending and apart. -/
def blankRanges : List (Nat × Nat) :=
  [(0x09, 0x0D), (0x1C, 0x20), (0x85, 0x85), (0xA0, 0xA0), (0x1680, 0x1680),
   (0x2000, 0x200A), (0x2028, 0x2029), (0x202F, 0x202F), (0x205F, 0x205F), (0x3000, 0x3000)]

/-- Whether a character is blank. -/
def isBlank (c : Char) : Bool :=
  blankRanges.any fun r => r.1 ≤ c.toNat && c.toNat ≤ r.2

/-- A text without the blanks at its start. -/
def trimLeft (cs : List Char) : List Char := cs.dropWhile isBlank

/-- A text without the blanks at its end. -/
def trimRight (cs : List Char) : List Char := (cs.reverse.dropWhile isBlank).reverse

/-- A text without the blanks at its start and its end. -/
def trim (cs : List Char) : List Char := trimRight (trimLeft cs)

/-- A text is what is left of it after trimming, followed by a run of blanks. -/
theorem trimRight_append (cs : List Char) :
    ∃ blanks, (∀ c ∈ blanks, isBlank c = true) ∧ cs = trimRight cs ++ blanks := by
  refine ⟨(cs.reverse.takeWhile isBlank).reverse, ?_, ?_⟩
  · intro c hc
    rw [List.mem_reverse] at hc
    exact List.all_eq_true.1 List.all_takeWhile c hc
  · rw [trimRight, ← List.reverse_append, List.takeWhile_append_dropWhile, List.reverse_reverse]

end UntypedLambda.Text
