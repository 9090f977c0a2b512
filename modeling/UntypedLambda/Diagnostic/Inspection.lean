import UntypedLambda.Diagnostic.Value

/-!
# How values describe themselves

The inspection of a program that is given no other. It knows the parts with names by which a
value describes itself: every value gives its kind and a description of it, and a kind gives
its own name and the kinds that its values belong to, as a row whose parts are numbered. Any
other name is refused, like one that the value does not have.

Whoever runs a program may know more about values than this, and nothing in the library
depends on what an inspection answers.
-/

namespace UntypedLambda.Diagnostic

/-- The kinds of value. -/
inductive Kind where
  | text
  | kind
  | row
  | absence
  | any
  deriving DecidableEq

namespace Kind

/-- The name of a kind. -/
def name : Kind → String
  | .text => "str"
  | .kind => "type"
  | .row => "tuple"
  | .absence => "NoneType"
  | .any => "object"

/-- A kind as it is shown. -/
def shown (k : Kind) : String := "<class '" ++ k.name ++ "'>"

/-- What is said about a kind, if anything is. -/
def description? : Kind → Option String
  | .text =>
      some ("str(object='') -> str\n" ++
        "str(bytes_or_buffer[, encoding[, errors]]) -> str\n\n" ++
        "Create a new string object from the given object. If encoding or\n" ++
        "errors is specified, then the object must expose a data buffer\n" ++
        "that will be decoded using the given encoding and error handler.\n" ++
        "Otherwise, returns the result of object.__str__() (if defined)\n" ++
        "or repr(object).\n" ++
        "encoding defaults to sys.getdefaultencoding().\n" ++
        "errors defaults to 'strict'.")
  | .kind =>
      some ("type(object) -> the object's type\n" ++
        "type(name, bases, dict, **kwds) -> a new type")
  | .row =>
      some ("Built-in immutable sequence.\n\n" ++
        "If no argument is given, the constructor returns an empty tuple.\n" ++
        "If iterable is specified the tuple is initialized from iterable's items.\n\n" ++
        "If the argument is a tuple, the return value is the same object.")
  | .absence => none
  | .any =>
      some ("The base class of the class hierarchy.\n\n" ++
        "When called, it accepts no arguments and returns a new featureless\n" ++
        "instance that has no instance attributes and cannot be given any.\n")

/-- The kinds above a kind, which its values belong to as well. -/
def above : Kind → List Kind
  | .any => []
  | _ => [.any]

/-- The kinds that the values of a kind belong to, the narrowest first. -/
def lineage (k : Kind) : List Kind := k :: k.above

end Kind

/-- What a value says about itself: a text, a kind, some kinds, or nothing. -/
inductive Trait where
  | text (s : String)
  | kind (k : Kind)
  | row (ks : List Kind)
  | absent
  deriving DecidableEq

namespace Trait

/-- A text, if there is one. -/
def ofText? : Option String → Trait
  | some s => .text s
  | none => .absent

/-- A kind, if there is one. -/
def ofKind? : Option Kind → Trait
  | some k => .kind k
  | none => .absent

/-- The kind of a trait. -/
def kindOf : Trait → Kind
  | .text _ => .text
  | .kind _ => .kind
  | .row _ => .row
  | .absent => .absence

/-- A trait as it is shown. -/
def shown : Trait → String
  | .text s => s
  | .kind k => k.shown
  | .row [k] => "(" ++ k.shown ++ ",)"
  | .row ks => "(" ++ ", ".intercalate (ks.map Kind.shown) ++ ")"
  | .absent => "None"

/-- A trait as a value. Nothing but a text has a layout that is not empty. -/
def value : Trait → Value
  | .text s => .text s
  | t =>
      .object {
        shown := t.shown
        quoted := t.shown
        fit := fun layout =>
          if layout = "" then .ok t.shown
          else .error ⟨"TypeError",
            "unsupported format string passed to " ++ t.kindOf.name ++ ".__format__"⟩ }

/-- The part of a kind with a name, if it has one. -/
def namedOfKind? (k : Kind) : String → Option Trait
  | "__name__" | "__qualname__" => some (.text k.name)
  | "__module__" => some (.text "builtins")
  | "__mro__" => some (.row k.lineage)
  | "__bases__" => some (.row k.above)
  | "__base__" => some (ofKind? k.above.head?)
  | "__doc__" => some (ofText? k.description?)
  | "__text_signature__" => some .absent
  | _ => none

/-- The part of a trait with a name, if it has one. -/
def named? (t : Trait) (name : String) : Option Trait :=
  match t, name with
  | _, "__class__" => some (.kind t.kindOf)
  | .kind k, _ => namedOfKind? k name
  | _, "__doc__" => some (ofText? t.kindOf.description?)
  | _, _ => none

/-- The parts of a trait that have numbers, if its parts have numbers at all. -/
def numbered? : Trait → Option (List Trait)
  | .text s => some (s.toList.map fun c => .text c.toString)
  | .row ks => some (ks.map .kind)
  | _ => none

/-- A part with this name is asked for, and there is none. -/
def noName (t : Trait) (name : String) : Fault :=
  let owner := match t with
    | .kind k => "type object '" ++ k.name ++ "'"
    | _ => "'" ++ t.kindOf.name ++ "' object"
  ⟨"AttributeError", owner ++ " has no attribute '" ++ name ++ "'"⟩

/-- A part is asked for by a number, or by something else in brackets, and no part has a
number. -/
def noNumbers (t : Trait) : Fault :=
  let owner := match t with
    | .kind k => "type '" ++ k.name ++ "'"
    | _ => "'" ++ t.kindOf.name ++ "' object"
  ⟨"TypeError", owner ++ " is not subscriptable"⟩

/-- A part is asked for by something in brackets that is no number. -/
def badNumber : Trait → Fault
  | .row _ => ⟨"TypeError", "tuple indices must be integers or slices, not str"⟩
  | _ => Value.Error.badNumber.fault

/-- There is no part with the number that is asked for. -/
def outOfRange : Trait → Fault
  | .row _ => ⟨"IndexError", "tuple index out of range"⟩
  | _ => Value.Error.outOfRange.fault

/-- A part of a trait. -/
def part (t : Trait) : Part → Except Fault Trait
  | .named name =>
      match t.named? name with
      | some t' => .ok t'
      | none => .error (t.noName name)
  | .numbered n =>
      match t.numbered? with
      | none => .error t.noNumbers
      | some parts =>
          match parts[n]? with
          | some t' => .ok t'
          | none => .error t.outOfRange
  | .keyed _ => .error (if t.numbered?.isSome then t.badNumber else t.noNumbers)

end Trait

/-- The inspection that knows how values describe themselves. -/
def Inspection.traits : Inspection := fun s name rest =>
  ((Part.named name :: rest).foldlM Trait.part (.text s)).map Trait.value

end UntypedLambda.Diagnostic
