import UntypedLambda.Diagnostic.Notice
import UntypedLambda.Grammar.Parser
import UntypedLambda.Text.Blank

/-!
# Diagnoses of grammar errors

The notice of a lexical error is about the illegal character. The notice of a grammatical
error is about the token at fault; an error at the end of the input is shown under the last
character that is not blank.
-/

namespace UntypedLambda.Grammar

open Diagnostic

/-- The message of a fault in `source`, where `found` is what stands in the place of the
fault. -/
def Fault.message (source found : String) : Fault → Message
  | .mismatchedParens => [.words "'", .snippet source, .words "' has mismatched parentheses"]
  | .unexpected =>
      [.words "'", .snippet source, .words "' has unexpected '", .snippet found, .words "'"]
  | .noParameter =>
      [.words "'", .snippet source,
        .words "' has an abstraction without a bound variable at '", .snippet found, .words "'"]
  | .noArrow =>
      [.words "'", .snippet source,
        .words "' expects '->' or '.' after bound variables, got '", .snippet found, .words "'"]
  | .noBody =>
      [.words "'", .snippet source, .words "' contains an illegal abstraction body at '",
        .snippet found, .words "'"]
  | .earlyEnd =>
      [.words "'", .snippet source, .words "' ends unexpectedly at '", .snippet found,
        .words "'"]
  | .emptyParens =>
      [.words "'", .snippet source, .words "' has empty parentheses at '", .snippet found,
        .words "'"]
  | .stray =>
      [.words "'", .snippet source, .words "' has stray '", .snippet found, .words "'"]

/-- What stands at the end of the input. -/
def endOfInput : String := "end of input"

/-- The span that stands for the end of the input: the last character that is not blank, or
the first character if there is none. -/
def endSpan (source : String) : Nat × Nat :=
  let length := (Text.trimRight source.toList).length
  (length - 1, max length 1)

/-- The notice of a list of tokens that is not a term. -/
def ParseError.notice (source : String) : ParseError → Notice
  | .empty => .whole .grammatical [.words "λ-term cannot be empty"] source
  | .located fault none =>
      { category := .grammatical
        message := fault.message source endOfInput
        subject := source
        start := (endSpan source).1
        stop := (endSpan source).2 }
  | .located fault (some token) =>
      { category := .grammatical
        message := fault.message source token.text
        subject := source
        start := token.start
        stop := token.stop }

/-- The notice of a character that starts no token. -/
def IllegalChar.notice (source : String) (e : IllegalChar) : Notice :=
  { category := .lexical
    message :=
      [.words "'", .snippet source, .words "' contains illegal character '",
        .snippet (String.ofList [e.char]), .words "'"]
    subject := source
    start := e.position
    stop := e.position + 1 }

/-- The notice of a text that is not a term. -/
def Error.notice (source : String) : Error → Notice
  | .illegal e => e.notice source
  | .malformed e => e.notice source

end UntypedLambda.Grammar
