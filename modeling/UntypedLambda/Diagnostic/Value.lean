import UntypedLambda.Diagnostic.Layout
import UntypedLambda.Text.Quoted

/-!
# Values in templates

A template is filled with texts, but a field may ask for a part of one, by a number or by a
name. The numbered parts of a text are its characters. What its parts with names are depends
on what a program runs on, and they can be anything: functions, numbers, tables with parts
of their own. An `Inspection` is asked for them, and for all that is asked of them in turn;
of a value that is no text only the ways are known in which it is shown (`Object`).

A text is shown as it is, and fitted into a field as a layout says.

## Main statement

* `follow_eq_text` : without a part with a name, parts of a text are texts.
-/

namespace UntypedLambda.Diagnostic

/-- A failure that no rule foresees, by its kind and what is said about it. -/
structure Fault where
  kind : String
  message : String
  deriving DecidableEq

/-- What a field asks of a value. -/
inductive Part where
  | named (name : String)
  | numbered (n : Nat)
  /-- What stands in brackets and is no number. -/
  | keyed (key : String)
  deriving DecidableEq

/-- The part that is asked for by what stands in brackets, which may be a number. -/
def Part.inBrackets (item : String) : Option Nat → Part
  | some n => .numbered n
  | none => .keyed item

/-- Whether a part is asked for by a name. -/
def Part.isNamed : Part → Bool
  | named _ => true
  | _ => false

/-- A value that is no text, by the ways in which it is shown. -/
structure Object where
  shown : String
  /-- The value as it is shown where a text stands in quotes. -/
  quoted : String
  /-- The value in a layout. -/
  fit : String → Except Fault String

/-- What a field of a template may stand for. -/
inductive Value where
  | text (s : String)
  | object (o : Object)

/-- What a text gives when it is asked for its part with a name, and that part for further
parts: the value that they lead to, or what is wrong on the way. -/
abbrev Inspection := String → String → List Part → Except Fault Value

namespace Value

/-- A value, where a text stands in quotes. -/
def quoted : Value → String
  | .text s => Text.quoted s
  | .object o => o.quoted

/-- A value, where a text stands for itself. -/
def shown : Value → String
  | .text s => s
  | .object o => o.shown

/-- What is wrong with what is asked of a value. -/
inductive Error where
  /-- A part of a text is asked for by something in brackets that is no number. -/
  | badNumber
  /-- A text has no character with the number asked for. -/
  | outOfRange
  | badLayout (e : Layout.Error)
  /-- What is asked for by a name, or of a value that is no text, is refused. -/
  | refused (f : Fault)
  deriving DecidableEq

/-- The fault that an error is. -/
def Error.fault : Error → Fault
  | .badNumber => ⟨"TypeError", "string indices must be integers, not 'str'"⟩
  | .outOfRange => ⟨"IndexError", "string index out of range"⟩
  | .badLayout .tooWide => ⟨"MemoryError", Layout.Error.tooWide.message⟩
  | .badLayout e => ⟨"ValueError", e.message⟩
  | .refused f => f

/-- The value that some parts lead to from a text. -/
def follow (inspect : Inspection) (s : String) : List Part → Except Error Value
  | [] => .ok (.text s)
  | .named name :: rest => (inspect s name rest).mapError .refused
  | .numbered n :: rest =>
      match s.toList[n]? with
      | some c => follow inspect c.toString rest
      | none => .error .outOfRange
  | .keyed _ :: _ => .error .badNumber

/-- A value in a layout. -/
def fit (v : Value) (layout : String) : Except Error String :=
  match v with
  | .text s =>
      match Layout.read layout with
      | .ok l => .ok (String.ofList (l.apply s.toList))
      | .error e => .error (.badLayout e)
  | .object o => (o.fit layout).mapError .refused

/-- Where no part is asked for by a name, characters of characters are all there is, and
no inspection is asked. -/
theorem follow_eq_text {inspect : Inspection} {s : String} {parts : List Part} {v : Value}
    (hparts : parts.any Part.isNamed = false) (h : follow inspect s parts = .ok v) :
    (∀ p ∈ parts, ∃ n, p = .numbered n) ∧ ∃ t, v = .text t ∧ ∀ c ∈ t.toList, c ∈ s.toList := by
  induction parts generalizing s with
  | nil =>
      cases h
      exact ⟨by simp, s, rfl, fun c hc => hc⟩
  | cons p rest ih =>
      rw [List.any_cons, Bool.or_eq_false_iff] at hparts
      cases p with
      | named name => cases hparts.1
      | keyed key => cases h
      | numbered n =>
          rw [follow] at h
          split at h
          · next c hc =>
              obtain ⟨hrest, t, rfl, ht⟩ := ih hparts.2 h
              refine ⟨List.forall_mem_cons.2 ⟨⟨n, rfl⟩, hrest⟩, t, rfl, fun d hd => ?_⟩
              have hd := ht d hd
              rw [Char.toString, String.toList_singleton, List.mem_singleton] at hd
              rw [hd]
              exact List.mem_of_getElem? hc
          · cases h

end Value

end UntypedLambda.Diagnostic
