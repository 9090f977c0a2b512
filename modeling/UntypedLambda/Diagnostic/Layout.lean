import UntypedLambda.Text.Digit

/-!
# Layouts

A layout says how a text is fitted into a field: how many of its characters are kept, how
wide the field is, and where the text stands in a field that is wider than it.

A layout is written as a row of parts, each of which may be left out: an alignment, with the
character that fills the field in front of it; a sign; `z`; `#`; `0`, which fills the field
with zeros; the width; the mark that groups digits; the number of characters that are kept,
behind a point; and the kind of value. Numbers are written in the same way, so a layout that
only a number can have is read before it is refused.

## Main statement

* `length_apply` : a field has its width, or that of the text that is kept if it is longer.
-/

namespace UntypedLambda.Diagnostic

/-- Where a text stands in its field. -/
inductive Alignment where
  | left
  | right
  | centre
  deriving DecidableEq

/-- How a text is fitted into a field. -/
structure Layout where
  /-- The character that the rest of the field is filled with. -/
  fill : Char := ' '
  alignment : Alignment := .left
  width : Nat := 0
  /-- The number of characters that are kept, if not all. -/
  kept : Option Nat := none
  deriving DecidableEq

namespace Layout

/-- The characters of a text that are kept. -/
def cut (l : Layout) (cs : List Char) : List Char :=
  match l.kept with
  | none => cs
  | some n => cs.take n

/-- The number of filling characters before a text, out of `missing` ones. -/
def leading (l : Layout) (missing : Nat) : Nat :=
  match l.alignment with
  | .left => 0
  | .right => missing
  | .centre => missing / 2

/-- A text in its field. -/
def apply (l : Layout) (cs : List Char) : List Char :=
  let body := l.cut cs
  let missing := l.width - body.length
  List.replicate (l.leading missing) l.fill ++ body ++
    List.replicate (missing - l.leading missing) l.fill

/-- What is wrong with a layout of a text. -/
inductive Error where
  | tooManyDigits
  | noNumber
  | twoMarks
  /-- The text is not a row of parts. -/
  | malformed (text : String)
  /-- A value of this kind has no digits to group. -/
  | grouped (mark kind : Char)
  /-- A text is not a value of this kind. -/
  | notText (kind : Char)
  /-- A text has no sign, so there is none to leave room for. -/
  | blankSign
  | sign
  /-- A text is never a zero with a sign. -/
  | signedZero
  | alternate
  /-- A text has no sign that filling characters could stand behind. -/
  | behindSign
  | tooWide
  deriving DecidableEq

/-- A character of a layout as an error names it. -/
def shownChar (c : Char) : String :=
  if 0x20 < c.toNat ∧ c.toNat < 0x80 then c.toString
  else "\\x" ++ String.ofList (Nat.toDigits 16 c.toNat)

/-- What is wrong with a layout, in words. -/
def Error.message : Error → String
  | .tooManyDigits => "Too many decimal digits in format string"
  | .noNumber => "Format specifier missing precision"
  | .twoMarks => "Cannot specify both ',' and '_'."
  | .malformed text => "Invalid format specifier '" ++ text ++ "' for object of type 'str'"
  | .grouped mark kind =>
      "Cannot specify '" ++ mark.toString ++ "' with '" ++ shownChar kind ++ "'."
  | .notText kind => "Unknown format code '" ++ shownChar kind ++ "' for object of type 'str'"
  | .blankSign => "Space not allowed in string format specifier"
  | .sign => "Sign not allowed in string format specifier"
  | .signedZero => "Negative zero coercion (z) not allowed in string format specifier"
  | .alternate => "Alternate form (#) not allowed in string format specifier"
  | .behindSign => "'=' alignment not allowed in string format specifier"
  | .tooWide => ""

/-- The largest count that can be written. -/
def largestCount : Nat := Nat.pow 2 63 - 1

/-- The width that no field reaches. -/
def unreachableWidth : Nat := Nat.pow 2 35

/-- The number that a text starts with, if it starts with digits, and what follows it. -/
def takeCount (cs : List Char) : Except Error (Option Nat × List Char) :=
  let (digits, rest) := Text.takeDigits cs
  if largestCount < Text.ofDigits digits then .error .tooManyDigits
  else .ok (if digits = [] then none else some (Text.ofDigits digits), rest)

/-- The character that a text starts with, if it is one of `marks`, and what follows it. -/
def takeMark (marks : List Char) : List Char → Option Char × List Char
  | [] => (none, [])
  | c :: cs => if c ∈ marks then (some c, cs) else (none, c :: cs)

/-- The marks of the alignments. The last one puts filling characters behind a sign. -/
def alignmentMarks : List Char := ['<', '>', '^', '=']

/-- The filling character and the mark of an alignment that a text starts with, and what
follows them. -/
def takeAlignment : List Char → Option Char × Option Char × List Char
  | c :: mark :: cs =>
      if mark ∈ alignmentMarks then (some c, some mark, cs)
      else (none, takeMark alignmentMarks (c :: mark :: cs))
  | cs => (none, takeMark alignmentMarks cs)

/-- The number behind a point that a text starts with, and what follows it. -/
def takeKept : List Char → Except Error (Option Nat × List Char)
  | '.' :: cs => do
      match ← takeCount cs with
      | (none, _) => .error .noNumber
      | counted => .ok counted
  | cs => .ok (none, cs)

/-- The kinds of value whose digits may be grouped by commas. -/
def decimalKinds : List Char := ['d', 'e', 'f', 'g', 'E', 'G', '%', 'F', '\x00']

/-- The kinds of value whose digits may be grouped by a mark. -/
def groupedKinds (mark : Char) : List Char :=
  if mark = '_' then ['b', 'o', 'x', 'X'] ++ decimalKinds else decimalKinds

/-- The layout that a text writes. -/
def read (text : String) : Except Error Layout := do
  let (fill, alignment, cs) := takeAlignment text.toList
  let (sign, cs) := takeMark [' ', '+', '-'] cs
  let (signedZero, cs) := takeMark ['z'] cs
  let (alternate, cs) := takeMark ['#'] cs
  let (zero, cs) := if fill.isSome then (fill, cs) else takeMark ['0'] cs
  let (width, cs) ← takeCount cs
  let (comma, cs) := takeMark [','] cs
  let (underscore, cs) := takeMark ['_'] cs
  if underscore.isSome && (comma.isSome || cs.head? = some ',') then throw .twoMarks
  let (kept, cs) ← takeKept cs
  if 1 < cs.length then throw (.malformed text)
  let kind := cs.head?.getD 's'
  match comma.or underscore with
  | none => pure ()
  | some mark => if kind ∉ groupedKinds mark then throw (.grouped mark kind)
  if kind ≠ 's' then throw (.notText kind)
  if sign = some ' ' then throw .blankSign
  if sign.isSome then throw .sign
  if signedZero.isSome then throw .signedZero
  if alternate.isSome then throw .alternate
  if alignment = some '=' then throw .behindSign
  if unreachableWidth ≤ width.getD 0 then throw .tooWide
  return {
    fill := zero.getD ' '
    alignment := match alignment with
      | some '>' => .right
      | some '^' => .centre
      | _ => .left
    width := width.getD 0
    kept }

theorem leading_le (l : Layout) (missing : Nat) : l.leading missing ≤ missing := by
  unfold leading
  split <;> omega

/-- A field has its width, or that of the text that is kept if it is longer. -/
theorem length_apply (l : Layout) (cs : List Char) :
    (l.apply cs).length = max l.width (l.cut cs).length := by
  have hle := l.leading_le (l.width - (l.cut cs).length)
  simp only [apply, List.length_append, List.length_replicate]
  omega

end Layout

end UntypedLambda.Diagnostic
