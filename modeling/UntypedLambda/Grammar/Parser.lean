import UntypedLambda.Grammar.Lexer
import UntypedLambda.Term.Basic

/-!
# Reading terms

The grammar of the written form is

    term         ::=  abstraction  |  application
    abstraction  ::=  lambda name+ arrow term
    application  ::=  atom+ [abstraction]
    atom         ::=  name  |  "(" term ")"

where an abstraction over several names abbreviates nested abstractions, and an application
of several terms associates to the left. The body of an abstraction reaches as far as it
can, so an abstraction without parentheses can only be the last term of an application.

A term is read in one pass over the tokens. The reading remembers where it stands: either
among the parameters of an abstraction (`header`), or where a term may follow (`operand`)
with the application read so far, if any, as its head. Around that stand the parentheses and
the abstractions that are still open (`Frame`), innermost first; each remembers the
application that it was opened in. A closing parenthesis, an arrow in the wrong place and
the end of the input first end all abstractions that are open inside the innermost
parenthesis (`unwind`).

Reading fails at the first token that cannot go on the term, with one exception: where a
parenthesis is not closed, the error is reported at that parenthesis.
-/

namespace UntypedLambda.Grammar

/-- The ways in which a list of tokens fails to be a term. -/
inductive Fault where
  /-- A parenthesis is closed that was not opened, or not closed that was opened. -/
  | mismatchedParens
  /-- A complete term is followed by something that cannot go on it. -/
  | unexpected
  | noParameter
  | noArrow
  | noBody
  /-- The input ends where a term has to start. -/
  | earlyEnd
  | emptyParens
  /-- An arrow stands where a term has to start. -/
  | stray
  deriving DecidableEq

/-- Why a list of tokens is not a term. -/
inductive ParseError where
  | empty
  /-- There is a fault at a token, or, without a token, at the end of the input. -/
  | located (fault : Fault) (place : Option Token)
  deriving DecidableEq

/-- Apply the application read so far, if there is one, to one more term. -/
def extend (head : Option Term) (t : Term) : Term :=
  match head with
  | none => t
  | some f => .app f t

/-- Nested abstractions over `params`, innermost first. -/
def lambdas (params : List Name) (body : Term) : Term :=
  params.foldl (fun b x => .abs x b) body

/-- What is open around the current position, with the application that it was opened in. -/
inductive Frame where
  /-- A parenthesis, opened by the given token. -/
  | paren (opening : Token) (outer : Option Term)
  /-- An abstraction over `params`, innermost first. -/
  | binder (params : List Name) (outer : Option Term)
  deriving DecidableEq

/-- A reading of the tokens so far. -/
inductive Reading where
  /-- A term may follow, after the application `head`. -/
  | operand (head : Option Term) (frames : List Frame)
  /-- The parameters of an abstraction have been read, the last one first. -/
  | header (params : List Name) (outer : Option Term) (frames : List Frame)
  deriving DecidableEq

/-- The reading before the first token. -/
def Reading.start : Reading := .operand none []

/-- An open parenthesis: the token, the application that it was opened in, and what is open
around it. -/
structure Opening where
  token : Token
  outer : Option Term
  frames : List Frame

/-- End the abstractions that are open inside the innermost parenthesis, and find that
parenthesis. -/
def unwind (t : Term) : List Frame → Term × Option Opening
  | [] => (t, none)
  | .paren opening outer :: frames => (t, some ⟨opening, outer, frames⟩)
  | .binder params outer :: frames => unwind (extend outer (lambdas params t)) frames

/-- Go on a reading by one token. -/
def Reading.feed (r : Reading) (tok : Token) : Except ParseError Reading :=
  let fail (fault : Fault) (place : Token) := Except.error (.located fault (some place))
  match r with
  | .header params outer frames =>
      match tok.kind with
      | .name => .ok (.header (tok.text :: params) outer frames)
      | .arrow =>
          if params = [] then fail .noParameter tok
          else .ok (.operand none (.binder params outer :: frames))
      | _ => fail (if params = [] then .noParameter else .noArrow) tok
  | .operand head frames =>
      match tok.kind with
      | .name => .ok (.operand (some (extend head (.var tok.text))) frames)
      | .lambda => .ok (.header [] head frames)
      | .openParen => .ok (.operand none (.paren tok head :: frames))
      | .closeParen =>
          match head with
          | none =>
              match frames with
              | [] => fail .mismatchedParens tok
              | .paren _ _ :: _ => fail .emptyParens tok
              | .binder _ _ :: _ => fail .noBody tok
          | some t =>
              match unwind t frames with
              | (_, none) => fail .mismatchedParens tok
              | (inner, some opening) =>
                  .ok (.operand (some (extend opening.outer inner)) opening.frames)
      | .arrow =>
          match head with
          | none => fail .stray tok
          | some t =>
              match unwind t frames with
              | (_, none) => fail .unexpected tok
              | (_, some opening) => fail .mismatchedParens opening.token

/-- The term that has been read when the input ends. -/
def Reading.finish (r : Reading) : Except ParseError Term :=
  let fail (fault : Fault) (place : Option Token) := Except.error (.located fault place)
  match r with
  | .header params _ _ => fail (if params = [] then .noParameter else .noArrow) none
  | .operand none frames =>
      match frames with
      | [] => .error .empty
      | .paren _ _ :: _ => fail .earlyEnd none
      | .binder _ _ :: _ => fail .noBody none
  | .operand (some t) frames =>
      match unwind t frames with
      | (whole, none) => .ok whole
      | (_, some opening) => fail .mismatchedParens (some opening.token)

/-- The term that a list of tokens writes. -/
def parseTokens (tokens : List Token) : Except ParseError Term := do
  (← tokens.foldlM Reading.feed .start).finish

/-- Why a text is not a term. -/
inductive Error where
  | illegal (error : IllegalChar)
  | malformed (error : ParseError)
  deriving DecidableEq

/-- The term that a text writes. -/
def parse (source : String) : Except Error Term := do
  let tokens ← (tokenize source).mapError .illegal
  (parseTokens tokens).mapError .malformed

end UntypedLambda.Grammar
