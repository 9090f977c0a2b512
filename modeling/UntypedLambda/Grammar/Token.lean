/-!
# Tokens of the written form

The written form of a term is made of five kinds of token: the mark that opens an
abstraction (`λ` or `\`), the arrow between its parameters and its body (`->` or `.`), the
two parentheses, and names.

A name is a run of letters, digits and the marks `+ - * / _ ~ ! @ # $ % ^ & '`. A `-`
directly before a `>` belongs to an arrow and never to a name, so whether a character goes
on a name depends on the character after it (`continuesName`).
-/

namespace UntypedLambda.Grammar

/-- The kinds of token. -/
inductive Kind where
  | lambda
  | arrow
  | openParen
  | closeParen
  | name
  deriving DecidableEq

/-- A token: its kind, what is written, and the position of its first character. -/
structure Token where
  kind : Kind
  text : String
  start : Nat
  deriving DecidableEq

/-- The position after the last character of a token. -/
def Token.stop (t : Token) : Nat := t.start + t.text.length

/-- The marks, apart from `-`, that may stand in a name. -/
def nameMarks : List Char :=
  ['+', '*', '/', '_', '~', '!', '@', '#', '$', '%', '^', '&', '\'']

/-- Whether a character may stand in a name. -/
def isNameChar (c : Char) : Bool := c.isAlphanum || nameMarks.contains c || c = '-'

/-- Whether a character that stands before `rest` is part of a name. -/
def continuesName (c : Char) (rest : List Char) : Bool :=
  isNameChar c && !(c = '-' && rest.head? = some '>')

end UntypedLambda.Grammar
