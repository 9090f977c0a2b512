import UntypedLambda.Grammar.Token
import UntypedLambda.Text.Blank

/-!
# Reading tokens

A text is split into tokens from left to right. Blanks separate tokens and are otherwise
ignored. At each other character the longest token that starts there is taken; if none
does, the text is refused at that character and nothing after it matters.

## Main statements

* `takeName_append` : taking a name loses no character.
* `lexeme?_append`, `lexeme?_ne_nil` : a lexeme is a non-empty piece from the front of the
  text.
-/

namespace UntypedLambda.Grammar

/-- A character that starts no token, and its position. -/
structure IllegalChar where
  position : Nat
  char : Char
  deriving DecidableEq

/-- The longest name at the front of a text, which may be empty, and what follows it. -/
def takeName : List Char → List Char × List Char
  | [] => ([], [])
  | c :: rest =>
      if continuesName c rest then (c :: (takeName rest).1, (takeName rest).2)
      else ([], c :: rest)

/-- The token at the front of a text that does not start with a blank, as its kind and its
characters, and what follows it. -/
def lexeme? : List Char → Option (Kind × List Char × List Char)
  | [] => none
  | 'λ' :: rest => some (.lambda, ['λ'], rest)
  | '\\' :: rest => some (.lambda, ['\\'], rest)
  | '.' :: rest => some (.arrow, ['.'], rest)
  | '-' :: '>' :: rest => some (.arrow, ['-', '>'], rest)
  | '(' :: rest => some (.openParen, ['('], rest)
  | ')' :: rest => some (.closeParen, [')'], rest)
  | c :: rest =>
      if continuesName c rest then some (.name, c :: (takeName rest).1, (takeName rest).2)
      else none

/-- Taking a name loses no character. -/
theorem takeName_append (cs : List Char) : (takeName cs).1 ++ (takeName cs).2 = cs := by
  induction cs with
  | nil => rfl
  | cons c rest ih =>
      rw [takeName]
      split
      · rw [List.cons_append, ih]
      · rfl

/-- A lexeme and what follows it make up the text. -/
theorem lexeme?_append {cs text rest : List Char} {kind : Kind}
    (hlex : lexeme? cs = some (kind, text, rest)) : text ++ rest = cs := by
  unfold lexeme? at hlex
  split at hlex
  case h_1 => cases hlex
  case h_8 =>
      split at hlex
      · cases hlex
        rw [List.cons_append, takeName_append]
      · cases hlex
  all_goals
    cases hlex
    rfl

/-- A lexeme is not empty. -/
theorem lexeme?_ne_nil {cs text rest : List Char} {kind : Kind}
    (hlex : lexeme? cs = some (kind, text, rest)) : text ≠ [] := by
  unfold lexeme? at hlex
  split at hlex
  case h_1 => cases hlex
  case h_8 =>
      split at hlex
      · cases hlex
        exact List.cons_ne_nil _ _
      · cases hlex
  all_goals
    cases hlex
    exact List.cons_ne_nil _ _

theorem length_rest_lt {cs text rest : List Char} {kind : Kind}
    (hlex : lexeme? cs = some (kind, text, rest)) : rest.length < cs.length := by
  have hpos := List.length_pos_iff.2 (lexeme?_ne_nil hlex)
  have hlen := congrArg List.length (lexeme?_append hlex)
  rw [List.length_append] at hlen
  omega

/-- The tokens of a text whose first character stands at position `pos`. -/
def scan (pos : Nat) : List Char → Except IllegalChar (List Token)
  | [] => .ok []
  | c :: cs =>
      if Text.isBlank c then scan (pos + 1) cs
      else match _hlex : lexeme? (c :: cs) with
        | none => .error ⟨pos, c⟩
        | some (kind, text, rest) =>
            (scan (pos + text.length) rest).map (⟨kind, String.ofList text, pos⟩ :: ·)
termination_by cs => cs.length
decreasing_by
  · simp
  · exact length_rest_lt _hlex

/-- The tokens of a text. -/
def tokenize (source : String) : Except IllegalChar (List Token) := scan 0 source.toList

end UntypedLambda.Grammar
