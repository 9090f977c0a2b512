import UntypedLambda.Json
import UntypedLambda.Scope
import UntypedLambda.Term.Basic

/-!
# Outlines

The outline of a term is its tree as a JSON value: an object that says the kind of term and
holds the outlines of its parts. The outline of a scope is an object of counts.
-/

namespace UntypedLambda

/-- The outline of a single name. -/
def nameOutline (x : Name) : Json := .object [("type", .str "Variable"), ("name", .str x)]

/-- The tree of a term. -/
def Term.outline : Term → Json
  | var x => nameOutline x
  | abs x b =>
      .object [("type", .str "Abstraction"), ("parameter", nameOutline x), ("body", b.outline)]
  | app f a =>
      .object [("type", .str "Application"), ("fn", f.outline), ("argument", a.outline)]

/-- The counts of a scope, as a line of text. -/
def Scope.described (s : Scope) : String :=
  "Scope(" ++ (Json.object (s.counts.entries.map fun e => (e.1, .int e.2))).literal ++ ")"

end UntypedLambda
