import UntypedLambda.Decimal.Shortest
import UntypedLambda.Text.Quoted

/-!
# JSON values

A JSON value has two written forms here. `pretty` is the JSON text with one member or item a
line, indented by two spaces a level; syntax trees are shown in it. `literal` is a form on
one line in which a value is shown inside a message: texts in quotes, the constants with a
capital letter. A text that is shown by itself, and not inside a list or an object, is shown
as it is (`display`).

Whole numbers and numbers with a fraction or an exponent are kept apart, because `4` and
`4.0` are shown differently.
-/

namespace UntypedLambda

/-- A JSON value. -/
inductive Json where
  | null
  | bool (value : Bool)
  /-- A number written without fraction and exponent. -/
  | int (value : Int)
  /-- A number written with a fraction or an exponent, as the bits of a binary64 number. -/
  | float (bits : UInt64)
  | str (value : String)
  | list (items : List Json)
  /-- The members of an object, in the order in which they are written. -/
  | object (members : List (String × Json))
  deriving Inhabited

namespace Json

/-- The characters that have a short escape in JSON, with their letter. -/
def letter? : Char → Option Char
  | '"' => some '"'
  | '\\' => some '\\'
  | '\n' => some 'n'
  | '\r' => some 'r'
  | '\t' => some 't'
  | '\x08' => some 'b'
  | '\x0c' => some 'f'
  | _ => none

/-- A character as it stands inside a JSON text. -/
def escapeChar (c : Char) : List Char :=
  match letter? c with
  | some l => ['\\', l]
  | none => if c.toNat < 0x20 then '\\' :: 'u' :: Text.hexDigits 4 c.toNat else [c]

/-- A text in JSON quotes. -/
def quote (s : String) : String :=
  String.ofList ('"' :: s.toList.flatMap escapeChar ++ ['"'])

/-- The start of a line at a level of nesting. -/
def indent (depth : Nat) : String := String.ofList (List.replicate (2 * depth) ' ')

mutual

/-- The JSON text of a value that stands at a level of nesting. -/
def prettyAt (depth : Nat) : Json → String
  | null => "null"
  | bool b => if b then "true" else "false"
  | int n => toString n
  | float bits => Decimal.binaryText bits
  | str s => quote s
  | list [] => "[]"
  | list (item :: rest) =>
      "[\n" ++ prettyItems (depth + 1) (item :: rest) ++ "\n" ++ indent depth ++ "]"
  | object [] => "\x7b\x7d"
  | object (member :: rest) =>
      "\x7b\n" ++ prettyMembers (depth + 1) (member :: rest) ++ "\n" ++ indent depth ++ "\x7d"

/-- The items of a list, one a line. -/
def prettyItems (depth : Nat) : List Json → String
  | [] => ""
  | [item] => indent depth ++ prettyAt depth item
  | item :: rest => indent depth ++ prettyAt depth item ++ ",\n" ++ prettyItems depth rest

/-- The members of an object, one a line. -/
def prettyMembers (depth : Nat) : List (String × Json) → String
  | [] => ""
  | [(key, value)] => indent depth ++ quote key ++ ": " ++ prettyAt depth value
  | (key, value) :: rest =>
      indent depth ++ quote key ++ ": " ++ prettyAt depth value ++ ",\n" ++
        prettyMembers depth rest

end

/-- The JSON text of a value, one member or item a line. -/
def pretty (value : Json) : String := value.prettyAt 0

mutual

/-- A value on one line, as it is shown inside a list or an object. -/
def literal : Json → String
  | null => "None"
  | bool b => if b then "True" else "False"
  | int n => toString n
  | float bits => Decimal.binaryText bits
  | str s => Text.quoted s
  | list items => "[" ++ literalItems items ++ "]"
  | object members => "\x7b" ++ literalMembers members ++ "\x7d"

/-- The items of a list on one line. -/
def literalItems : List Json → String
  | [] => ""
  | [item] => literal item
  | item :: rest => literal item ++ ", " ++ literalItems rest

/-- The members of an object on one line. -/
def literalMembers : List (String × Json) → String
  | [] => ""
  | [(key, value)] => Text.quoted key ++ ": " ++ literal value
  | (key, value) :: rest =>
      Text.quoted key ++ ": " ++ literal value ++ ", " ++ literalMembers rest

end

/-- A value as it is shown by itself. -/
def display : Json → String
  | str s => s
  | value => value.literal

end Json

end UntypedLambda
