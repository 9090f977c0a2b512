import Mathlib.Logic.Relation
import UntypedLambda.Environment

/-!
# Dependencies between definitions

A name leads to the free names of its definition (`Follows`), whether these
are defined themselves or not; it refers to those that are (`Refers`).  An
environment is acyclic if no definition refers to itself, directly or through
others.

The search that decides whether a new definition would refer to itself marks
the definitions it has followed and does not follow them again.  It may do so
because a marked definition is never forgotten: everything it leads to has
been marked, is still to be looked at, or leads nowhere.

## Main results

* `search_iff`: the search finds exactly the names that a term leads to, in
  whatever order free names are listed.
* `acyclic_insert`: a definition that is not led back to itself closes no
  cycle, also where it takes the place of an earlier one.
-/

namespace UntypedLambda.Environment

open Relation (ReflTransGen TransGen)

variable {env : Environment}

/-- The definition of `x` has `y` among its free names. -/
def Follows (env : Environment) (x y : Name) : Prop :=
  ∃ t, env.get? x = some t ∧ y ∈ t.freeNames

/-- The definition of `x` has the defined name `y` among its free names. -/
def Refers (env : Environment) (x y : Name) : Prop :=
  ∃ t, env.get? x = some t ∧ y ∈ t.freeNames ∧ y ∈ env.keys

/-- No definition refers to itself, directly or through others. -/
def Acyclic (env : Environment) : Prop := ∀ x, ¬ TransGen env.Refers x x

/-- `goal` is free in `t` or in a definition that `t` leads to. -/
def Reaches (env : Environment) (goal : Name) (t : Term) : Prop :=
  ∃ x ∈ t.freeNames, ReflTransGen env.Follows x goal

instance (env : Environment) (x y : Name) : Decidable (env.Follows x y) :=
  decidable_of_iff (∃ t ∈ env.get? x, y ∈ t.freeNames) Iff.rfl

theorem Follows.mem_keys {x y : Name} (h : env.Follows x y) : x ∈ env.keys := by
  obtain ⟨t, ht, -⟩ := h
  rw [Table.mem_keys_iff, ht]
  rfl

/-! ## The search -/

section Search

variable {listed : Term → List Name} {goal : Name}

/-- What the search finds, something it still has to look at leads to. -/
theorem search_sound (hlisted : ∀ t y, y ∈ listed t → y ∈ t.freeNames)
    {seen pending : List Name}
    (h : env.search listed goal seen pending = true) :
    ∃ x ∈ pending, ReflTransGen env.Follows x goal := by
  fun_induction search env listed goal seen pending with
  | case1 => cases h
  | case2 => exact ⟨goal, List.mem_cons_self, .refl⟩
  | case3 seen x rest hgoal hseen ih =>
      obtain ⟨y, hy, hpath⟩ := ih h
      exact ⟨y, List.mem_cons_of_mem x hy, hpath⟩
  | case4 seen x rest hgoal hseen hdef ih =>
      obtain ⟨y, hy, hpath⟩ := ih h
      exact ⟨y, List.mem_cons_of_mem x hy, hpath⟩
  | case5 seen x rest hgoal hseen t hdef ih =>
      obtain ⟨y, hy, hpath⟩ := ih h
      rcases List.mem_append.1 hy with hy | hy
      · have hxy : env.Follows x y := ⟨t, hdef, hlisted t y hy⟩
        exact ⟨x, List.mem_cons_self, .head hxy hpath⟩
      · exact ⟨y, List.mem_cons_of_mem x hy, hpath⟩

/-- A name that the search need not look at any more: it has been marked, or
it has no definition and is not what is looked for. -/
private def Settled (env : Environment) (goal : Name) (seen : List Name)
    (x : Name) : Prop :=
  x ∈ seen ∨ (env.get? x = none ∧ x ≠ goal)

/-- If marked names lead to settled names only, none of these leads to what is
looked for. -/
private theorem settled_not_path {seen : List Name} (hgoal : goal ∉ seen)
    (hclosed : ∀ x ∈ seen, ∀ y, env.Follows x y → Settled env goal seen y)
    {x : Name} (hx : Settled env goal seen x) :
    ¬ ReflTransGen env.Follows x goal := by
  intro hpath
  induction hpath using ReflTransGen.head_induction_on with
  | refl =>
      rcases hx with hx | ⟨-, hx⟩
      · exact hgoal hx
      · exact hx rfl
  | head hstep _ ih =>
      rcases hx with hx | ⟨hx, -⟩
      · exact ih (hclosed _ hx _ hstep)
      · obtain ⟨t, ht, -⟩ := hstep
        rw [hx] at ht
        cases ht

private theorem drop_settled {seen : List Name} {x : Name}
    (hx : Settled env goal seen x) (rest : List Name) (y : Name)
    (hy : y ∈ x :: rest ∨ Settled env goal seen y) :
    y ∈ rest ∨ Settled env goal seen y := by
  rcases hy with hy | hy
  · rcases List.mem_cons.1 hy with rfl | hy
    · exact Or.inr hx
    · exact Or.inl hy
  · exact Or.inr hy

/-- If the search finds nothing, nothing that it has marked or still has to
look at leads to what is looked for. -/
private theorem search_false (hlisted : ∀ t, ∀ y ∈ t.freeNames, y ∈ listed t)
    {seen pending : List Name}
    (h : env.search listed goal seen pending = false) (hgoal : goal ∉ seen)
    (hclosed : ∀ x ∈ seen, ∀ y, env.Follows x y →
      y ∈ pending ∨ Settled env goal seen y) :
    ∀ x, x ∈ pending ∨ Settled env goal seen x →
      ¬ ReflTransGen env.Follows x goal := by
  fun_induction search env listed goal seen pending with
  | case1 seen =>
      intro x hx
      have hsettled : ∀ y, y ∈ [] ∨ Settled env goal seen y →
          Settled env goal seen y := fun y hy => by simpa using hy
      exact settled_not_path hgoal
        (fun x hx y hxy => hsettled y (hclosed x hx y hxy)) (hsettled x hx)
  | case2 => cases h
  | case3 seen x rest hne hseen ih =>
      have hx : Settled env goal seen x := Or.inl hseen
      have hdrop := drop_settled hx rest
      intro y hy
      exact ih h hgoal (fun x hx y hxy => hdrop y (hclosed x hx y hxy)) y
        (hdrop y hy)
  | case4 seen x rest hne hseen hdef ih =>
      have hx : Settled env goal seen x := Or.inr ⟨hdef, hne⟩
      have hdrop := drop_settled hx rest
      intro y hy
      exact ih h hgoal (fun x hx y hxy => hdrop y (hclosed x hx y hxy)) y
        (hdrop y hy)
  | case5 seen x rest hne hseen t hdef ih =>
      -- `x` is marked now, and what it leads to is still to be looked at
      have hmark : ∀ y, y ∈ x :: rest ∨ Settled env goal seen y →
          y ∈ listed t ++ rest ∨ Settled env goal (x :: seen) y := by
        rintro y (hy | hy | hy)
        · rcases List.mem_cons.1 hy with rfl | hy
          · exact Or.inr (Or.inl List.mem_cons_self)
          · exact Or.inl (List.mem_append_right _ hy)
        · exact Or.inr (Or.inl (List.mem_cons_of_mem x hy))
        · exact Or.inr (Or.inr hy)
      have hgoal' : goal ∉ x :: seen := by
        simp [hgoal, Ne.symm hne]
      have hclosed' : ∀ z ∈ x :: seen, ∀ y, env.Follows z y →
          y ∈ listed t ++ rest ∨ Settled env goal (x :: seen) y := by
        intro z hz y hzy
        rcases List.mem_cons.1 hz with rfl | hz
        · obtain ⟨u, hu, hy⟩ := hzy
          rw [hdef, Option.some.injEq] at hu
          subst hu
          exact Or.inl (List.mem_append_left _ (hlisted t y hy))
        · exact hmark y (hclosed z hz y hzy)
      intro y hy
      exact ih h hgoal' hclosed' y (hmark y hy)

/-- **The search is exact.**  In whatever order it lists the free names of
definitions, it finds a name exactly if something it starts from leads
there. -/
theorem search_iff (hlisted : ∀ t y, y ∈ listed t ↔ y ∈ t.freeNames)
    (pending : List Name) :
    env.search listed goal [] pending = true ↔
      ∃ x ∈ pending, ReflTransGen env.Follows x goal := by
  refine ⟨search_sound fun t y => (hlisted t y).1, ?_⟩
  rintro ⟨x, hx, hpath⟩
  cases hfound : env.search listed goal [] pending with
  | true => rfl
  | false =>
      have hnone := search_false (fun t y => (hlisted t y).2) hfound
        List.not_mem_nil (fun x hx => absurd hx List.not_mem_nil)
      exact absurd hpath (hnone x (Or.inl hx))

theorem reaches_iff (t : Term) :
    env.reaches goal t = true ↔ env.Reaches goal t :=
  search_iff (fun _ _ => Iff.rfl) t.freeNames

theorem not_reaches {t : Term} (h : env.reaches goal t = false) :
    ¬ env.Reaches goal t := by
  rw [← reaches_iff, h]
  exact Bool.false_ne_true

end Search

/-! ## Cycles -/

theorem Refers.follows {x y : Name} (h : env.Refers x y) : env.Follows x y := by
  obtain ⟨t, ht, hy, -⟩ := h
  exact ⟨t, ht, hy⟩

/-- A chain that ends at a defined name goes through defined names only. -/
theorem refers_of_follows {x y : Name} (h : TransGen env.Follows x y)
    (hy : y ∈ env.keys) : TransGen env.Refers x y := by
  induction h with
  | single hxy =>
      obtain ⟨t, ht, hmem⟩ := hxy
      exact .single ⟨t, ht, hmem, hy⟩
  | tail _ hstep ih =>
      have hrest := ih hstep.mem_keys
      obtain ⟨t, ht, hmem⟩ := hstep
      exact hrest.tail ⟨t, ht, hmem, hy⟩

/-- A cycle goes through defined names only. -/
theorem acyclic_iff : env.Acyclic ↔ ∀ x, ¬ TransGen env.Follows x x := by
  constructor
  · intro h x hcycle
    obtain ⟨y, hxy, -⟩ := TransGen.head'_iff.1 hcycle
    exact h x (refers_of_follows hcycle hxy.mem_keys)
  · intro h x hcycle
    exact h x (hcycle.lift id fun _ _ hstep => hstep.follows)

theorem acyclic_empty : Acyclic ∅ := by
  intro x hcycle
  obtain ⟨y, hstep, -⟩ := TransGen.head'_iff.1 hcycle
  obtain ⟨t, ht, -⟩ := hstep
  cases ht

section Insert

variable {name : Name} {t : Term}

theorem follows_insert_self {y : Name} :
    Follows (env.insert name t) name y ↔ y ∈ t.freeNames := by
  simp [Follows, Table.get?_insert]

theorem follows_insert_ne {x y : Name} (hx : x ≠ name) :
    Follows (env.insert name t) x y ↔ env.Follows x y := by
  simp [Follows, Table.get?_insert, Ne.symm hx]

/-- A chain to the new definition does not use it before it gets there. -/
theorem path_to_inserted {x : Name}
    (h : ReflTransGen (Follows (env.insert name t)) x name) :
    ReflTransGen env.Follows x name := by
  induction h using ReflTransGen.head_induction_on with
  | refl => exact .refl
  | @head x y hstep _ ih =>
      by_cases hx : x = name
      · rw [hx]
      · exact .head ((follows_insert_ne hx).1 hstep) ih

/-- Nor does such a chain miss the definition that it takes the place of. -/
theorem path_to_replaced {x : Name} (h : ReflTransGen env.Follows x name) :
    ReflTransGen (Follows (env.insert name t)) x name := by
  induction h using ReflTransGen.head_induction_on with
  | refl => exact .refl
  | @head x y hstep _ ih =>
      by_cases hx : x = name
      · rw [hx]
      · exact .head ((follows_insert_ne hx).2 hstep) ih

/-- A chain either was there before the new definition or goes through it. -/
theorem path_through_inserted {x z : Name}
    (h : TransGen (Follows (env.insert name t)) x z) :
    TransGen env.Follows x z ∨
      (ReflTransGen (Follows (env.insert name t)) x name ∧
        TransGen (Follows (env.insert name t)) name z) := by
  induction h using TransGen.head_induction_on with
  | @single x hstep =>
      by_cases hx : x = name
      · subst hx
        exact Or.inr ⟨.refl, .single hstep⟩
      · exact Or.inl (.single ((follows_insert_ne hx).1 hstep))
  | @head x y hstep hrest ih =>
      by_cases hx : x = name
      · subst hx
        exact Or.inr ⟨.refl, .head hstep hrest⟩
      · rcases ih with hold | ⟨hto, hfrom⟩
        · exact Or.inl (.head ((follows_insert_ne hx).1 hstep) hold)
        · exact Or.inr ⟨.head hstep hto, hfrom⟩

/-- A definition that its own body does not lead back to closes no cycle, also
where it takes the place of an earlier one. -/
theorem acyclic_insert (hacyclic : env.Acyclic)
    (hreach : ¬ env.Reaches name t) : Acyclic (env.insert name t) := by
  rw [acyclic_iff] at hacyclic ⊢
  have hself : ¬ TransGen (Follows (env.insert name t)) name name := by
    intro hcycle
    obtain ⟨y, hstep, hback⟩ := TransGen.head'_iff.1 hcycle
    exact hreach ⟨y, follows_insert_self.1 hstep, path_to_inserted hback⟩
  intro x hcycle
  rcases path_through_inserted hcycle with hold | ⟨hto, hfrom⟩
  · exact hacyclic x hold
  · exact hself (hfrom.trans_left hto)

/-- A definition that its own body leads back to closes a cycle. -/
theorem not_reaches_of_acyclic_insert (h : Acyclic (env.insert name t)) :
    ¬ env.Reaches name t := by
  intro hreach
  obtain ⟨y, hy, hpath⟩ := hreach
  have hstep : Follows (env.insert name t) name y := follows_insert_self.2 hy
  exact acyclic_iff.1 h name (TransGen.head' hstep (path_to_replaced hpath))

theorem acyclic_insert_of_reaches (hacyclic : env.Acyclic)
    (hreach : env.reaches name t = false) : Acyclic (env.insert name t) :=
  acyclic_insert hacyclic (not_reaches hreach)

end Insert

end UntypedLambda.Environment
