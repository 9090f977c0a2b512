import UntypedLambda.Session.Line
import UntypedLambda.Text.Lines
import UntypedLambda.Text.Utf8

/-!
# Source files

A source file holds lines to run, encoded in UTF-8. Its physical lines are joined to logical
ones: a line that leaves parentheses open goes on in the next, and so on until they are
closed or the file ends. Blank lines and comments are dropped. A logical line is numbered by
the first of its physical lines.

What a path leads to is a parameter (`Files`), so that reading is a function.
-/

namespace UntypedLambda.Session

/-- A logical line and the number of its first physical line. -/
structure Line where
  text : String
  number : Nat
  deriving DecidableEq

/-- The logical lines of the physical lines from number `n` on, where `pending` is an
unfinished logical line, if there is one. -/
def joinFrom (pending : Option Line) (n : Nat) : List String → List Line
  | [] => pending.toList.map fun line => ⟨trimmed line.text, line.number⟩
  | physical :: rest =>
      let first := (pending.map Line.number).getD n
      let text := match pending with
        | none => continueLine none physical
        | some line => continueLine (some line.text) (trimmed physical)
      if leavesOpen text then joinFrom (some ⟨text, first⟩) (n + 1) rest
      else if trimmed text = "" then joinFrom none (n + 1) rest
      else ⟨trimmed text, first⟩ :: joinFrom none (n + 1) rest

/-- The logical lines of some physical lines. -/
def logicalLines (physical : List String) : List Line := joinFrom none 1 physical

/-- What a path leads to: the bytes of a file, or nothing that can be read. -/
abbrev Files := String → Option (List UInt8)

/-- Why a source file cannot be read. -/
inductive ReadError where
  /-- The path holds the character that ends paths. -/
  | badPath
  | unreadable
  | malformed (e : Text.Utf8.Malformed)

/-- The logical lines of a file. -/
def readLines (files : Files) (path : String) : Except ReadError (List Line) :=
  if path.toList.contains '\x00' then .error .badPath
  else match files path with
    | none => .error .unreadable
    | some bytes =>
        match Text.Utf8.decode bytes with
        | .error e => .error (.malformed e)
        | .ok cs => .ok (logicalLines ((Text.lines cs).map String.ofList))

end UntypedLambda.Session
