import UntypedLambda.Table
import UntypedLambda.Term.Basic

/-!
# Scopes

A scope counts, for each name, how many of the abstractions around the current position
bind it, so that shadowing (`λx.λx.…`) is undone one abstraction at a time. A traversal of
a term carries a scope in its state, enters it at each abstraction and gives it back
afterwards. What a traversal needs of its scope is only to look at it and to enter it
(`Walk`), so whatever else is carried along, the traversal is written once.

A scope may be handed in from outside with any counts. A name is bound if its count is
positive; a name without a count has count zero. Leaving an abstraction restores the count
from before it, and a count of zero is restored by forgetting the name.

## Main statements

* `count_enter` : entering an abstraction adds one to the count of its parameter.
* `count_leave` : leaving it sets the count to what it was before.
-/

namespace UntypedLambda

/-- How many abstractions around the current position bind each name. -/
structure Scope where
  /-- The counts, in the order in which the names were first entered. -/
  counts : Table Name Int

namespace Scope

/-- The scope without enclosing abstractions. -/
def empty : Scope := ⟨∅⟩

instance : EmptyCollection Scope := ⟨empty⟩

instance : Inhabited Scope := ⟨empty⟩

/-- The scope with the given counts. -/
def ofCounts (counts : List (Name × Int)) : Scope := ⟨Table.ofList counts⟩

/-- How many enclosing abstractions bind `x`. -/
def count (s : Scope) (x : Name) : Int := (s.counts.get? x).getD 0

/-- Whether an enclosing abstraction binds `x`. -/
def isBound (s : Scope) (x : Name) : Bool := s.count x > 0

/-- The names that an enclosing abstraction binds. -/
def names (s : Scope) : List Name :=
  (s.counts.entries.filter fun e => e.2 > 0).map Prod.fst

/-- The scope inside an abstraction over `x`. -/
def enter (s : Scope) (x : Name) : Scope := ⟨s.counts.insert x (s.count x + 1)⟩

/-- The scope after an abstraction over `x` that was entered when the count of `x` was
`prior`. -/
def leave (s : Scope) (x : Name) (prior : Int) : Scope :=
  ⟨if prior = 0 then s.counts.erase x else s.counts.insert x prior⟩

/-- Carry out a traversal inside an abstraction over `x`. -/
def within {m : Type → Type} [Monad m] {α : Type} (x : Name) (body : StateT Scope m α) :
    StateT Scope m α := fun s => do
  let (a, inner) ← body (s.enter x)
  return (a, inner.leave x (s.count x))

/-- Entering an abstraction adds one to the count of its parameter. -/
theorem count_enter (s : Scope) (x y : Name) :
    (s.enter x).count y = if x = y then s.count x + 1 else s.count y := by
  unfold enter count
  rw [Table.get?_insert]
  split <;> simp

/-- Leaving an abstraction sets the count of its parameter to the count before it. -/
theorem count_leave (s : Scope) (x y : Name) (prior : Int) :
    (s.leave x prior).count y = if x = y then prior else s.count y := by
  unfold leave count
  by_cases hprior : prior = 0 <;> by_cases hxy : x = y <;>
    simp [hprior, hxy, Table.get?_insert, Table.get?_erase]

end Scope

/-- A kind of traversal, which can look at the scope of the current position and be carried
out inside an abstraction over a name. -/
class Walk (m : Type → Type) where
  look : m Scope
  within {α : Type} (x : Name) (body : m α) : m α

instance {m : Type → Type} [Monad m] : Walk (StateT Scope m) where
  look := get
  within := Scope.within

/-- The names with an occurrence that neither an abstraction of the term nor one around it
binds, in a traversal of any kind. -/
@[specialize]
def Walk.freeNames {m : Type → Type} [Monad m] [Walk m] : Term → m (List Name)
  | .var x => do
      return if (← look).isBound x then [] else [x]
  | .abs x b => within x (freeNames b)
  | .app f a => do
      let left ← freeNames f
      let right ← freeNames a
      return left ++ right

/-- The names with an occurrence that neither an abstraction of the term nor one around it
binds. -/
def Term.freeNamesWithin (t : Term) : StateM Scope (List Name) := Walk.freeNames t

/-- What is said about the abstractions around a term: nothing, how many of them bind each
name, or a scope that is at hand. -/
inductive Surroundings where
  | unknown
  | counts (table : Table Name Int)
  | scope (s : Scope)

/-- The scope that a term stands in. A scope at hand is used itself; counts are copied into
a new one. -/
def Surroundings.toScope : Surroundings → Scope
  | .unknown => ∅
  | .counts table => .ofCounts table.entries
  | .scope s => s

/-- The scope that counts are copied into has these counts. -/
theorem Surroundings.toScope_counts (table : Table Name Int) :
    (Surroundings.counts table).toScope = ⟨table⟩ :=
  congrArg Scope.mk table.ofList_entries

/-- The names with an occurrence that neither an abstraction of the term nor one of its
surroundings binds. -/
def Term.freeNamesUnder (t : Term) (around : Surroundings) : List Name :=
  (t.freeNamesWithin around.toScope).1

end UntypedLambda
