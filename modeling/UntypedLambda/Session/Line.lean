import UntypedLambda.Text.Blank
import UntypedLambda.Text.Slice

/-!
# Lines of a session

A line may end in a comment, which starts with two semicolons. The comment is cut off, and
so are the blanks at the end of what is left. A line that opens more parentheses than it
closes goes on in the next line; the two are joined with a space. A line with an equals sign
outside of all parentheses is a definition.
-/

namespace UntypedLambda.Session

/-- The mark that starts a comment. -/
def commentMark : List Char := [';', ';']

/-- A text up to its comment. -/
def dropComment (cs : List Char) : List Char :=
  match Text.splitAt? commentMark cs with
  | none => cs
  | some (code, _) => code

/-- A line without its comment, if it has one, and without the blanks at the end of what is
left. -/
def cleanChars (cs : List Char) : List Char := Text.trimRight (dropComment cs)

/-- A line without its comment, if it has one, and without the blanks at the end of what is
left. -/
def clean (line : String) : String := String.ofList (cleanChars line.toList)

/-- Whether a text opens more parentheses than it closes. -/
def leavesOpenChars (cs : List Char) : Bool := cs.count ')' < cs.count '('

/-- Whether a clean line goes on in the next line. -/
def leavesOpen (line : String) : Bool := leavesOpenChars line.toList

/-- Two lines as one. -/
def joinLines (pending line : String) : String := pending ++ " " ++ line

/-- The clean line that a physical line makes together with the unfinished line before it,
if there is one. -/
def continueLine (pending : Option String) (line : String) : String :=
  clean (match pending with
    | none => line
    | some before => joinLines before line)

/-- Whether there is an equals sign in a text where `depth` more parentheses have been
opened than closed, outside of all of them. -/
def hasOuterEquals (depth : Int) : List Char → Bool
  | [] => false
  | '(' :: cs => hasOuterEquals (depth + 1) cs
  | ')' :: cs => hasOuterEquals (depth - 1) cs
  | c :: cs => (c = '=' && depth = 0) || hasOuterEquals depth cs

/-- Whether a line is a definition. -/
def isDefinition (line : String) : Bool := hasOuterEquals 0 line.toList

/-- A text without the blanks around it. -/
def trimmed (s : String) : String := String.ofList (Text.trim s.toList)

/-- What stands before and after the first occurrence of a character. Without one,
everything stands before it. -/
def splitAtChar (mark : Char) (s : String) : String × String :=
  match Text.splitAt? [mark] s.toList with
  | none => (s, "")
  | some (left, right) => (String.ofList left, String.ofList right)

end UntypedLambda.Session
