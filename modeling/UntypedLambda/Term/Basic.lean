/-!
# Terms of the untyped lambda calculus

A term is a name, an abstraction over a name, or the application of one term to another.
Binding is by name: an occurrence of a name belongs to the innermost abstraction over it,
and is free if there is none. Nothing here restricts which strings are names; that is the
business of the written grammar.

Two views of a term matter to everything that renames: the names that occur free in it
(`freeNames`) and the names that occur in it at all (`names`). Both are lists that stand
for sets, so a name may be listed more than once.

## Main statements

* `mem_freeNames_var`, `mem_freeNames_abs`, `mem_freeNames_app` : what is free in each kind
  of term.
* `mem_names_of_mem_freeNames` : a free name occurs.
-/

namespace UntypedLambda

/-- A name is any string. -/
abbrev Name := String

/-- A term of the untyped lambda calculus. -/
inductive Term where
  | var (name : Name)
  | abs (param : Name) (body : Term)
  | app (fn arg : Term)
  deriving DecidableEq, Inhabited

namespace Term

/-- The names with an occurrence that no abstraction of the term binds. -/
def freeNames : Term → List Name
  | var x => [x]
  | abs x b => b.freeNames.filter (· ≠ x)
  | app f a => f.freeNames ++ a.freeNames

/-- Every name that occurs, as a variable or as a parameter. -/
def names : Term → List Name
  | var x => [x]
  | abs x b => x :: b.names
  | app f a => f.names ++ a.names

/-- The number of names, abstractions and applications a term is built from. -/
def size : Term → Nat
  | var _ => 1
  | abs _ b => b.size + 1
  | app f a => f.size + a.size + 1

@[simp] theorem mem_freeNames_var (y x : Name) : y ∈ (var x).freeNames ↔ y = x := by
  simp [freeNames]

@[simp] theorem mem_freeNames_abs (y x : Name) (b : Term) :
    y ∈ (abs x b).freeNames ↔ y ∈ b.freeNames ∧ y ≠ x := by
  simp [freeNames]

@[simp] theorem mem_freeNames_app (y : Name) (f a : Term) :
    y ∈ (app f a).freeNames ↔ y ∈ f.freeNames ∨ y ∈ a.freeNames := by
  simp [freeNames]

/-- A free name occurs in the term. -/
theorem mem_names_of_mem_freeNames {y : Name} {t : Term} (hy : y ∈ t.freeNames) :
    y ∈ t.names := by
  induction t with
  | var x => simpa [names] using hy
  | abs x b ih =>
      rw [mem_freeNames_abs] at hy
      exact List.mem_cons_of_mem _ (ih hy.1)
  | app f a ihf iha =>
      rw [mem_freeNames_app] at hy
      rw [names, List.mem_append]
      exact hy.imp ihf iha

end Term

end UntypedLambda
