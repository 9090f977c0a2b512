import UntypedLambda.Diagnostic.Inspection

/-!
# Message templates

A template is a text with fields in braces, which are filled with snippets. A field without
a name takes the snippets in order, one after another, and a field whose name is a number
takes the snippet with that number, counted from zero; one template uses fields of one sort
only. A doubled brace stands for a brace. Snippets that no field takes are ignored, and
braces inside a snippet mean nothing.

Behind the name there may be parts that are asked for, by a number in brackets or by a name
behind a point; an exclamation mark with a letter, which says whether the text is quoted; and
a layout behind a colon. A layout may hold fields of its own, but those may not hold any.

Reading a template (`pieces`) and filling it (`fill`) are kept apart. A template is filled
from left to right, and the first thing that is wrong counts: what cannot be read is
therefore a piece like any other, and is met after the fields before it have been filled.

## Main statement

* `fill_of_no_braces` : a template without braces stands for itself.
-/

namespace UntypedLambda.Diagnostic.Template

/-- What is wrong with a template, or with the snippets for it. -/
inductive Error where
  /-- A closing brace closes no field. -/
  | loneClose
  /-- The template ends right after an opening brace. -/
  | loneOpen
  /-- The template ends inside the name of a field. -/
  | unclosed
  /-- There is an opening brace inside the name of a field. -/
  | nested
  /-- The template ends right after an exclamation mark. -/
  | noConversion
  /-- The template ends inside the layout of a field. -/
  | unclosedLayout
  /-- The letter behind an exclamation mark is followed by neither a layout nor the end of
  the field. -/
  | longConversion
  | badConversion (c : Char)
  /-- A field inside a layout has a layout with fields. -/
  | tooDeep
  | tooManyDigits
  /-- A field has a name that is no number. -/
  | unknown (name : String)
  /-- A field without a name follows one with a number. -/
  | countAfterNumber
  /-- A field with a number follows one without a name. -/
  | numberAfterCount
  | missing (index : Nat)
  /-- There is nothing behind a point or in brackets. -/
  | emptyPart
  /-- There is something behind brackets that asks for no part. -/
  | strayPart
  /-- A value does not have what is asked of it. -/
  | badValue (e : Value.Error)
  /-- There are no snippets at all, so none for the message to be about. -/
  | noSnippets
  deriving DecidableEq

/-- The kind of failure that a bad template is. -/
def Error.kind : Error → String
  | .missing _ | .noSnippets => "IndexError"
  | .unknown _ => "KeyError"
  | .badValue e => e.fault.kind
  | _ => "ValueError"

/-- The letter behind an exclamation mark as an error names it. -/
def shownConversion (c : Char) : String :=
  if 0x20 < c.toNat ∧ c.toNat < 0x7F then c.toString
  else "\\x" ++ String.ofList (Nat.toDigits 16 c.toNat)

/-- What is wrong with a template, in words. -/
def Error.message : Error → String
  | .loneClose => "Single '\x7d' encountered in format string"
  | .loneOpen => "Single '\x7b' encountered in format string"
  | .unclosed => "expected '\x7d' before end of string"
  | .nested => "unexpected '\x7b' in field name"
  | .noConversion => "end of string while looking for conversion specifier"
  | .unclosedLayout => "unmatched '\x7b' in format spec"
  | .longConversion => "expected ':' after conversion specifier"
  | .badConversion c => "Unknown conversion specifier " ++ shownConversion c
  | .tooDeep => "Max string recursion exceeded"
  | .tooManyDigits => "Too many decimal digits in format string"
  | .unknown name => Text.quoted name
  | .countAfterNumber =>
      "cannot switch from manual field specification to automatic field numbering"
  | .numberAfterCount =>
      "cannot switch from automatic field numbering to manual field specification"
  | .missing index =>
      "Replacement index " ++ toString index ++ " out of range for positional args tuple"
  | .emptyPart => "Empty attribute in format string"
  | .strayPart => "Only '.' or '[' may follow ']' in format field specifier"
  | .badValue e => e.fault.message
  | .noSnippets => "list index out of range"

/-! ## Reading -/

/-- What stands between two braces. -/
structure Field where
  /-- The name with the parts asked for. -/
  name : List Char
  /-- The letter behind an exclamation mark, if there is one. -/
  conversion : Option Char
  /-- What stands behind the colon. -/
  layout : List Char
  deriving DecidableEq

/-- A piece of a template. -/
inductive Piece where
  | char (c : Char)
  | field (f : Field)
  | fault (e : Error)
  deriving DecidableEq

/-- The name of a field, the character that ends it, and what follows. Anything but its
closing bracket may stand in brackets. -/
def takeName (inBrackets : Bool) : List Char → Except Error (List Char × Char × List Char)
  | [] => .error .unclosed
  | c :: cs =>
      if !inBrackets && c = '\x7b' then .error .nested
      else if !inBrackets && c ∈ ['\x7d', ':', '!'] then .ok ([], c, cs)
      else
        let parts := takeName (if inBrackets then c ≠ ']' else c = '[') cs
        parts.map fun (name, last, rest) => (c :: name, last, rest)

/-- The layout of a field up to the brace that closes the field, where `depth` more braces
have been opened than closed in it, and what follows. -/
def takeLayout (depth : Nat) : List Char → Except Error (List Char × List Char)
  | [] => .error .unclosedLayout
  | c :: cs =>
      let go := fun depth => (takeLayout depth cs).map fun (layout, rest) => (c :: layout, rest)
      if c = '\x7b' then go (depth + 1)
      else if c = '\x7d' then
        match depth with
        | 0 => .ok ([], cs)
        | depth + 1 => go depth
      else go depth

/-- A field whose layout is what follows, and what follows its closing brace. -/
def takeFieldLayout (name : List Char) (conversion : Option Char) (cs : List Char) :
    Except Error (Field × List Char) :=
  (takeLayout 0 cs).map fun (layout, rest) => (⟨name, conversion, layout⟩, rest)

/-- A field whose opening brace has been read, and what follows its closing brace. -/
def takeField (cs : List Char) : Except Error (Field × List Char) :=
  match takeName false cs with
  | .error e => .error e
  | .ok (name, '\x7d', rest) => .ok (⟨name, none, []⟩, rest)
  | .ok (name, ':', rest) => takeFieldLayout name none rest
  | .ok (_, _, []) => .error .noConversion
  | .ok (_, _, [_]) => .error .unclosedLayout
  | .ok (name, _, c :: '\x7d' :: rest) => .ok (⟨name, some c, []⟩, rest)
  | .ok (name, _, c :: ':' :: rest) => takeFieldLayout name (some c) rest
  | .ok _ => .error .longConversion

theorem length_takeName {cs name rest : List Char} {inBrackets : Bool} {last : Char}
    (hname : takeName inBrackets cs = .ok (name, last, rest)) : rest.length < cs.length := by
  induction cs generalizing inBrackets name with
  | nil => cases hname
  | cons c cs ih =>
      simp only [takeName] at hname
      split at hname
      · cases hname
      · split at hname
        · cases hname
          simp
        · generalize hparts :
            takeName (if inBrackets then c ≠ ']' else c = '[') cs = parts at hname
          cases parts with
          | error e => cases hname
          | ok parts =>
              cases hname
              have := ih hparts
              simp only [List.length_cons]
              omega

theorem length_takeLayout {cs layout rest : List Char} {depth : Nat}
    (hlayout : takeLayout depth cs = .ok (layout, rest)) : rest.length < cs.length := by
  induction cs generalizing depth layout with
  | nil => cases hlayout
  | cons c cs ih =>
      have hgo : ∀ d, (takeLayout d cs).map (fun (layout, rest) => (c :: layout, rest)) =
          .ok (layout, rest) → rest.length < (c :: cs).length := by
        intro d hd
        generalize hparts : takeLayout d cs = parts at hd
        cases parts with
        | error e => cases hd
        | ok parts =>
            cases hd
            have := ih hparts
            simp only [List.length_cons]
            omega
      simp only [takeLayout] at hlayout
      split at hlayout
      · exact hgo _ hlayout
      · split at hlayout
        · split at hlayout
          · cases hlayout
            simp
          · exact hgo _ hlayout
        · exact hgo _ hlayout

theorem length_takeFieldLayout {cs name rest : List Char} {conversion : Option Char} {f : Field}
    (hfield : takeFieldLayout name conversion cs = .ok (f, rest)) : rest.length < cs.length := by
  unfold takeFieldLayout at hfield
  generalize hparts : takeLayout 0 cs = parts at hfield
  cases parts with
  | error e => cases hfield
  | ok parts =>
      cases hfield
      exact length_takeLayout hparts

theorem length_takeField {cs rest : List Char} {f : Field}
    (hfield : takeField cs = .ok (f, rest)) : rest.length < cs.length := by
  unfold takeField at hfield
  split at hfield
  case h_1 => cases hfield
  case h_2 hname =>
      cases hfield
      exact length_takeName hname
  case h_3 hname => exact Nat.lt_trans (length_takeFieldLayout hfield) (length_takeName hname)
  case h_4 => cases hfield
  case h_5 => cases hfield
  case h_6 hname =>
      cases hfield
      have := length_takeName hname
      simp only [List.length_cons] at this
      omega
  case h_7 hname =>
      have hlayout := length_takeFieldLayout hfield
      have := length_takeName hname
      simp only [List.length_cons] at this
      omega
  case h_8 => cases hfield

/-- The pieces of a template. Nothing follows a piece that cannot be read. -/
def pieces : List Char → List Piece
  | [] => []
  | '\x7b' :: '\x7b' :: rest => .char '\x7b' :: pieces rest
  | '\x7d' :: '\x7d' :: rest => .char '\x7d' :: pieces rest
  | '\x7d' :: _ => [.fault .loneClose]
  | ['\x7b'] => [.fault .loneOpen]
  | '\x7b' :: rest =>
      match _hfield : takeField rest with
      | .error e => [.fault e]
      | .ok (f, rest') => .field f :: pieces rest'
  | c :: rest => .char c :: pieces rest
termination_by cs => cs.length
decreasing_by
  all_goals simp only [List.length_cons]
  · omega
  · omega
  · have := length_takeField _hfield
    omega
  · omega

/-! ## Filling -/

/-- The fields that have been filled so far. -/
inductive Progress where
  | none
  | numbered
  /-- This many fields without names. -/
  | counted (n : Nat)
  deriving DecidableEq

/-- Filling goes on from the fields filled so far, and may fail. -/
abbrev Fill := StateT Progress (Except Error)

/-- The number of the snippet that a field takes: the one in its name, or the next one. -/
def takeIndex (number : Option Nat) : Fill Nat := do
  match number, ← get with
  | none, .none => set (Progress.counted 1); return 0
  | none, .counted n => set (Progress.counted (n + 1)); return n
  | none, .numbered => throw .countAfterNumber
  | some _, .counted _ => throw .numberAfterCount
  | some n, _ => set Progress.numbered; return n

/-- A number in a template: its value, if the text is one, is not larger than any count. -/
def readCount? (cs : List Char) : Except Error (Option Nat) :=
  match Layout.takeCount cs with
  | .error _ => .error .tooManyDigits
  | .ok (count, rest) => .ok (if rest = [] then count else none)

/-- The snippet that a field asks for, by its name without parts. -/
def lookup (snippets : List String) (name : List Char) : Fill String := do
  let number ← readCount? name
  if name ≠ [] && number.isNone then throw (.unknown (String.ofList name))
  let index ← takeIndex number
  match snippets[index]? with
  | some s => return s
  | none => throw (.missing index)

/-- The characters that start a part. -/
def partMarks : List Char := ['.', '[']

/-- The parts that a field asks for, and what is wrong with the rest of its name, if anything
is: there is nothing behind what cannot be read. -/
def readParts : List Char → List Part × Option Error
  | [] => ([], none)
  | '.' :: rest =>
      let name := rest.takeWhile fun c => c ∉ partMarks
      if name = [] then ([], some .emptyPart)
      else
        let (parts, fault) := readParts (rest.dropWhile fun c => c ∉ partMarks)
        (.named (String.ofList name) :: parts, fault)
  | '[' :: rest =>
      let item := rest.takeWhile fun c => c ≠ ']'
      match readCount? item with
      | .error e => ([], some e)
      | .ok number =>
          if item = [] then ([], some .emptyPart)
          else
            let (parts, fault) := readParts ((rest.dropWhile fun c => c ≠ ']').drop 1)
            (.inBrackets (String.ofList item) number :: parts, fault)
  | _ :: _ => ([], some .strayPart)
termination_by cs => cs.length
decreasing_by
  · have := (List.dropWhile_suffix (l := rest) fun c => c ∉ partMarks).length_le
    simp only [List.length_cons]
    omega
  · have := (List.dropWhile_suffix (l := rest) fun c => c ≠ ']').length_le
    simp only [List.length_drop, List.length_cons]
    omega

/-- The parts that a field asks of its snippet, and what is wrong with the rest of its
name. -/
def Field.parts (f : Field) : List Part × Option Error :=
  readParts (f.name.dropWhile fun c => c ∉ partMarks)

/-- The value that a field asks of its snippet. What cannot be read in the name of the field
is met after the parts in front of it. -/
def Field.select (inspect : Inspection) (f : Field) (s : String) : Except Error Value := do
  let v ← (Value.follow inspect s f.parts.1).mapError .badValue
  match f.parts.2 with
  | none => return v
  | some e => throw e

/-- A value as the letter behind an exclamation mark says. The null character stands for no
letter. -/
def convert (v : Value) : Option Char → Except Error Value
  | none => .ok v
  | some '\x00' => .ok v
  | some 's' => .ok (.text v.shown)
  | some 'r' => .ok (.text v.quoted)
  | some 'a' => .ok (.text (Text.asciiOnly v.quoted))
  | some c => .error (.badConversion c)

/-- The text in a field, where `expand` fills the fields in its layout. -/
def Field.fill (inspect : Inspection) (expand : List Char → Fill String)
    (snippets : List String) (f : Field) : Fill String := do
  let s ← lookup snippets (f.name.takeWhile fun c => c ∉ partMarks)
  let part ← f.select inspect s
  let v ← convert part f.conversion
  let layout ← if '\x7b' ∈ f.layout then expand f.layout else pure (String.ofList f.layout)
  let shown ← (v.fit layout).mapError Error.badValue
  return shown

/-- The text that stands in the place of a piece. -/
def Piece.fill (inspect : Inspection) (expand : List Char → Fill String)
    (snippets : List String) : Piece → Fill String
  | .char c => return c.toString
  | .field f => f.fill inspect expand snippets
  | .fault e => throw e

/-- Fill a template in which layouts with fields stand inside one another to less than
`depth` levels. -/
def fillWithin (inspect : Inspection) (snippets : List String) : Nat → List Char → Fill String
  | 0, _ => throw .tooDeep
  | depth + 1, cs => do
      let parts ← (pieces cs).mapM
        (Piece.fill inspect (fillWithin inspect snippets depth) snippets)
      return String.join parts

/-- How many levels of layouts with fields are filled, the template counted as the first. -/
def maxDepth : Nat := 2

/-- Fill a template with snippets. -/
def fill (template : String) (snippets : List String)
    (inspect : Inspection := Inspection.traits) : Except Error String :=
  (fillWithin inspect snippets maxDepth template.toList).run' .none

theorem pieces_of_no_braces {cs : List Char}
    (hbraces : ∀ c ∈ cs, c ≠ '\x7b' ∧ c ≠ '\x7d') : pieces cs = cs.map .char := by
  induction cs with
  | nil => simp [pieces]
  | cons c cs ih =>
      have hc := hbraces c List.mem_cons_self
      have hrest := ih fun d hd => hbraces d (List.mem_cons_of_mem c hd)
      unfold pieces
      split
      all_goals simp_all

theorem mapM_fill_char (inspect : Inspection) (expand : List Char → Fill String)
    (snippets : List String) (cs : List Char) :
    (cs.map Piece.char).mapM (Piece.fill inspect expand snippets) =
      pure (cs.map Char.toString) := by
  induction cs with
  | nil => rfl
  | cons c cs ih => simp [ih, Piece.fill]

/-- A template without braces stands for itself. -/
theorem fill_of_no_braces {template : String}
    (hbraces : ∀ c ∈ template.toList, c ≠ '\x7b' ∧ c ≠ '\x7d') (snippets : List String)
    (inspect : Inspection) : fill template snippets inspect = .ok template := by
  have hjoin : String.join (template.toList.map Char.toString) = template := by
    apply String.toList_inj.1
    simp [String.toList_join, List.flatMap_map, Char.toString]
  unfold fill maxDepth fillWithin
  rw [pieces_of_no_braces hbraces, mapM_fill_char, pure_bind, hjoin]
  rfl

end UntypedLambda.Diagnostic.Template
