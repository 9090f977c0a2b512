import Mathlib.Data.List.Nodup
import UntypedLambda.Proofs.Session.Definition

/-!
# Definitions in any order

A definition may speak of names that are defined later, so a session cannot see
a cycle before its last definition comes in, whichever that is.  It then refuses
that one, and no other: as long as the definitions of a list do not depend on
each other in a circle, none of them leads back to its own name through those
taken up before it, and if they do, not all of them can be taken up, because
the environment would not be acyclic.

So nothing depends on the order in which definitions of different names are
given.  Either all are taken up in every order, and the session ends with the
same definitions, or in every order one is refused as recursive.

## Main results

* `HoldsExactly.bind`: after a definition of a new name the session holds one
  more.
* `bindings_any_order`: what becomes of definitions does not depend on their
  order.
-/

namespace UntypedLambda

open Relation (ReflTransGen TransGen)

namespace Session

/-! ## What the session holds -/

/-- The environment gives to names what the statements define, and nothing
else. -/
def HoldsExactly (env : Environment) (statements : List String) : Prop :=
  ∀ x t, env.get? x = some t ↔
    ∃ statement ∈ statements, definedName statement = x ∧ Defines statement t

theorem holdsExactly_empty : HoldsExactly ∅ [] := by
  intro x t
  simp

theorem HoldsExactly.insert {env : Environment} {statements : List String}
    (hold : HoldsExactly env statements) {statement : String} {t : Term}
    (hdefines : Defines statement t)
    (hfresh : definedName statement ∉ statements.map definedName) :
    HoldsExactly (env.insert (definedName statement) t)
      (statements ++ [statement]) := by
  intro x u
  simp only [List.mem_append, List.mem_singleton, or_and_right, exists_or,
    exists_eq_left]
  rw [Table.get?_insert, ← hold x u]
  by_cases hx : definedName statement = x
  · have hnone : env.get? x ≠ some u := by
      intro hsome
      obtain ⟨other, hmem, hname, -⟩ := (hold x u).1 hsome
      have hlisted : definedName other ∈ statements.map definedName :=
        List.mem_map_of_mem hmem
      rw [hname, ← hx] at hlisted
      exact hfresh hlisted
    rw [if_pos hx, Option.some.injEq]
    constructor
    · intro htu
      exact Or.inr ⟨hx, htu ▸ hdefines⟩
    · intro h
      rcases h with hsome | ⟨-, hu⟩
      · exact absurd hsome hnone
      · exact hdefines.unique hu
  · rw [if_neg hx]
    simp [hx]

theorem HoldsExactly.of_perm {env : Environment}
    {statements order : List String} (hold : HoldsExactly env order)
    (hperm : order.Perm statements) : HoldsExactly env statements := by
  intro x t
  simp only [hold x t, hperm.mem_iff]

theorem HoldsExactly.get?_eq {env env' : Environment} {statements : List String}
    (hold : HoldsExactly env statements) (hold' : HoldsExactly env' statements)
    (x : Name) : env.get? x = env'.get? x :=
  Option.ext fun t => (hold x t).trans (hold' x t).symm

/-! ## Dependencies in a list -/

/-- A statement of the list defines `x` by a term with `y` free, and `y` is
defined in the list too. -/
def DependsOn (statements : List String) (x y : Name) : Prop :=
  y ∈ statements.map definedName ∧
    ∃ statement ∈ statements, ∃ t, definedName statement = x ∧
      Defines statement t ∧ y ∈ t.freeNames

theorem DependsOn.mono {statements statements' : List String}
    (hsubset : statements ⊆ statements') {x y : Name}
    (h : DependsOn statements x y) : DependsOn statements' x y := by
  obtain ⟨hy, statement, hmem, t, hx⟩ := h
  exact ⟨List.map_subset definedName hsubset hy, statement, hsubset hmem, t, hx⟩

theorem HoldsExactly.refers_iff {env : Environment} {statements : List String}
    (hold : HoldsExactly env statements)
    (hdefines : ∀ statement ∈ statements, ∃ t, Defines statement t)
    (x y : Name) : env.Refers x y ↔ DependsOn statements x y := by
  have hkey : y ∈ env.keys ↔ y ∈ statements.map definedName := by
    rw [Table.mem_keys_iff, Option.isSome_iff_exists, List.mem_map]
    constructor
    · intro h
      obtain ⟨t, ht⟩ := h
      obtain ⟨statement, hmem, hname, -⟩ := (hold y t).1 ht
      exact ⟨statement, hmem, hname⟩
    · intro h
      obtain ⟨statement, hmem, hname⟩ := h
      obtain ⟨t, ht⟩ := hdefines statement hmem
      exact ⟨t, (hold y t).2 ⟨statement, hmem, hname, ht⟩⟩
  constructor
  · intro h
    obtain ⟨t, hdef, hfree, hy⟩ := h
    obtain ⟨statement, hmem, hname, ht⟩ := (hold x t).1 hdef
    exact ⟨hkey.1 hy, statement, hmem, t, hname, ht, hfree⟩
  · intro h
    obtain ⟨hy, statement, hmem, t, hname, ht, hfree⟩ := h
    exact ⟨t, (hold x t).2 ⟨statement, hmem, hname, ht⟩, hfree, hkey.2 hy⟩

/-- A list depends on itself in a circle exactly if the environment that holds
it does. -/
theorem HoldsExactly.acyclic_iff {env : Environment} {statements : List String}
    (hold : HoldsExactly env statements)
    (hdefines : ∀ statement ∈ statements, ∃ t, Defines statement t) :
    env.Acyclic ↔ ∀ x, ¬ TransGen (DependsOn statements) x x := by
  have hrefers : env.Refers = DependsOn statements := by
    funext x y
    exact propext (hold.refers_iff hdefines x y)
  rw [Environment.Acyclic, hrefers]

/-! ## One definition after another -/

/-- What becomes of statements that are bound one after another, each in the
session that those before it have left. -/
def bindings (s : Session) : List String → List (Except Error Term)
  | [] => []
  | statement :: rest =>
      (s.bind statement).map Prod.fst ::
        bindings (s.after (.bind statement)) rest

/-- A definition of a new name that does not lead back to it is one more that
the session holds. -/
theorem HoldsExactly.bind {s : Session} {statements : List String}
    (hold : HoldsExactly s.environment statements) {statement : String}
    {t : Term} (hdefines : Defines statement t)
    (hfresh : definedName statement ∉ statements.map definedName)
    (hreach : ¬ s.environment.Reaches (definedName statement) t) :
    HoldsExactly (s.after (.bind statement)).environment
      (statements ++ [statement]) := by
  rw [after_bind (bind_of_not_reaches hdefines hreach)]
  exact hold.insert hdefines hfresh

/-- A statement that defines a name is taken up or refused as recursive. -/
theorem bindings_ok_or_recursive {s : Session} {statements : List String}
    (hdefines : ∀ statement ∈ statements, ∃ t, Defines statement t) :
    ∀ r ∈ s.bindings statements,
      (∃ t, r = .ok t) ∨
        ∃ statement ∈ statements, r = .error (.recursive statement) := by
  induction statements generalizing s with
  | nil =>
      intro r hr
      cases hr
  | cons statement rest ih =>
      intro r hr
      rcases List.mem_cons.1 hr with rfl | hr
      · obtain ⟨t, ht⟩ := hdefines statement List.mem_cons_self
        by_cases hreach : s.environment.Reaches (definedName statement) t
        · rw [bind_eq_recursive_iff.2 ⟨t, ht, hreach⟩]
          exact Or.inr ⟨statement, List.mem_cons_self, rfl⟩
        · rw [bind_of_not_reaches ht hreach]
          exact Or.inl ⟨t, rfl⟩
      · have hrest := ih (fun other hmem =>
          hdefines other (List.mem_cons_of_mem statement hmem)) r hr
        exact hrest.imp_right fun ⟨other, hmem, heq⟩ =>
          ⟨other, List.mem_cons_of_mem statement hmem, heq⟩

theorem fresh_of_nodup {before rest : List String} {statement : String}
    (hdistinct : ((before ++ statement :: rest).map definedName).Nodup) :
    definedName statement ∉ before.map definedName := by
  rw [List.map_append, List.nodup_append] at hdistinct
  intro hmem
  exact hdistinct.2.2 _ hmem _ List.mem_cons_self rfl

section Run

variable {s : Session} {before rest : List String}

/-- Definitions that do not depend on each other in a circle are all taken up,
after others that the session holds already. -/
theorem bindings_ok_of_acyclic (hold : HoldsExactly s.environment before)
    (hdefines : ∀ statement ∈ before ++ rest, ∃ t, Defines statement t)
    (hdistinct : ((before ++ rest).map definedName).Nodup)
    (hacyclic : ∀ x, ¬ TransGen (DependsOn (before ++ rest)) x x) :
    ∀ r ∈ s.bindings rest, ∃ t, r = .ok t := by
  induction rest generalizing s before with
  | nil =>
      intro r hr
      cases hr
  | cons statement rest ih =>
      obtain ⟨t, ht⟩ := hdefines statement (by simp)
      have hfresh := fresh_of_nodup hdistinct
      rw [List.append_cons] at hdefines hdistinct hacyclic
      -- with this definition the session holds a part of the list, which cannot
      -- depend on itself in a circle if the whole does not
      have hsubset : before ++ [statement] ⊆ before ++ [statement] ++ rest :=
        List.subset_append_left _ _
      have hafter : Environment.Acyclic
          (s.environment.insert (definedName statement) t) :=
        ((hold.insert ht hfresh).acyclic_iff
          fun other hmem => hdefines other (hsubset hmem)).2
          fun x hcycle => hacyclic x (hcycle.lift id fun _ _ => .mono hsubset)
      have hreach := Environment.not_reaches_of_acyclic_insert hafter
      intro r hr
      rcases List.mem_cons.1 hr with rfl | hr
      · rw [bind_of_not_reaches ht hreach]
        exact ⟨t, rfl⟩
      · exact ih (hold.bind ht hfresh hreach) hdefines hdistinct hacyclic r hr

/-- If all definitions have been taken up, the session holds them all. -/
theorem holdsExactly_afterAll (hold : HoldsExactly s.environment before)
    (hdefines : ∀ statement ∈ rest, ∃ t, Defines statement t)
    (hdistinct : ((before ++ rest).map definedName).Nodup)
    (hok : ∀ r ∈ s.bindings rest, ∃ t, r = .ok t) :
    HoldsExactly (s.afterAll (rest.map .bind)).environment (before ++ rest) := by
  induction rest generalizing s before with
  | nil =>
      rw [List.append_nil]
      exact hold
  | cons statement rest ih =>
      obtain ⟨t, ht⟩ := hdefines statement List.mem_cons_self
      have hfresh := fresh_of_nodup hdistinct
      have hreach : ¬ s.environment.Reaches (definedName statement) t := by
        intro hreach
        obtain ⟨u, hu⟩ := hok _ List.mem_cons_self
        rw [bind_eq_recursive_iff.2 ⟨t, ht, hreach⟩] at hu
        cases hu
      rw [List.append_cons] at hdistinct ⊢
      exact ih (hold.bind ht hfresh hreach)
        (fun other hmem => hdefines other (List.mem_cons_of_mem statement hmem))
        hdistinct fun r hr => hok r (List.mem_cons_of_mem _ hr)

end Run

section Order

variable {s : Session} {statements order : List String}

theorem bindings_ok_of_perm (hstart : s.environment = ∅)
    (hdefines : ∀ statement ∈ statements, ∃ t, Defines statement t)
    (hdistinct : (statements.map definedName).Nodup)
    (hacyclic : ∀ x, ¬ TransGen (DependsOn statements) x x)
    (hperm : order.Perm statements) :
    ∀ r ∈ s.bindings order, ∃ t, r = .ok t := by
  have hempty : HoldsExactly s.environment [] := hstart ▸ holdsExactly_empty
  have hdistinct' : (order.map definedName).Nodup :=
    (hperm.map definedName).nodup_iff.2 hdistinct
  refine bindings_ok_of_acyclic hempty
    (fun statement hmem => hdefines statement (hperm.subset hmem)) hdistinct' ?_
  intro x hcycle
  exact hacyclic x (hcycle.lift id fun _ _ => .mono hperm.subset)

theorem holdsExactly_of_perm (hstart : s.environment = ∅)
    (hdefines : ∀ statement ∈ statements, ∃ t, Defines statement t)
    (hdistinct : (statements.map definedName).Nodup)
    (hperm : order.Perm statements)
    (hok : ∀ r ∈ s.bindings order, ∃ t, r = .ok t) :
    HoldsExactly (s.afterAll (order.map .bind)).environment statements := by
  have hempty : HoldsExactly s.environment [] := hstart ▸ holdsExactly_empty
  have hdistinct' : (order.map definedName).Nodup :=
    (hperm.map definedName).nodup_iff.2 hdistinct
  have hold := holdsExactly_afterAll hempty
    (fun statement hmem => hdefines statement (hperm.subset hmem)) hdistinct' hok
  exact hold.of_perm hperm

/-- **The order of definitions does not matter.**  Let statements define names
that are all different.  If the definitions do not depend on each other in a
circle, all are taken up in every order, and the session that started without
definitions ends with the same ones.  If they do, one is refused as recursive in
every order. -/
theorem bindings_any_order (hstart : s.environment = ∅)
    (hdefines : ∀ statement ∈ statements, ∃ t, Defines statement t)
    (hdistinct : (statements.map definedName).Nodup) :
    ((∀ x, ¬ TransGen (DependsOn statements) x x) →
      ∀ order, order.Perm statements →
        (∀ r ∈ s.bindings order, ∃ t, r = .ok t) ∧
          HoldsExactly (s.afterAll (order.map .bind)).environment statements ∧
          ∀ x, (s.afterAll (order.map .bind)).environment.get? x =
            (s.afterAll (statements.map .bind)).environment.get? x) ∧
      ((∃ x, TransGen (DependsOn statements) x x) →
        ∀ order, order.Perm statements →
          ∃ statement ∈ order,
            .error (.recursive statement) ∈ s.bindings order) := by
  constructor
  · intro hacyclic order hperm
    have hok := bindings_ok_of_perm hstart hdefines hdistinct hacyclic hperm
    have hok' := bindings_ok_of_perm hstart hdefines hdistinct hacyclic (.refl _)
    have hheld := holdsExactly_of_perm hstart hdefines hdistinct hperm hok
    have hgiven := holdsExactly_of_perm hstart hdefines hdistinct (.refl _) hok'
    exact ⟨hok, hheld, hheld.get?_eq hgiven⟩
  · intro hcycle order hperm
    by_contra hnone
    -- then all were taken up, and the session would hold the circle
    have hok : ∀ r ∈ s.bindings order, ∃ t, r = .ok t := by
      intro r hr
      rcases bindings_ok_or_recursive
          (fun statement hmem => hdefines statement (hperm.subset hmem)) r hr with
        hok | ⟨statement, hmem, rfl⟩
      · exact hok
      · exact absurd ⟨statement, hmem, hr⟩ hnone
    have hheld := holdsExactly_of_perm hstart hdefines hdistinct hperm hok
    have hacyclic := (hheld.acyclic_iff hdefines).1 (acyclic_afterAll hstart _)
    obtain ⟨x, hx⟩ := hcycle
    exact hacyclic x hx

end Order

/-- Two definitions with a forward reference, given in the other order, and two
that refer to each other. -/
theorem bindings_any_order_pairs :
    let s := typedIn ⟨.plain, true, ∅⟩ .usual
    let forward := ["a = b b", "b = \\x. x"]
    let circle := ["a = b", "b = \\x. a"]
    s.environment = ∅ ∧
      (∀ statement ∈ forward, ∃ t, Defines statement t) ∧
      (∀ statement ∈ circle, ∃ t, Defines statement t) ∧
      (forward.map definedName).Nodup ∧ (circle.map definedName).Nodup ∧
      (∀ x, ¬ TransGen (DependsOn forward) x x) ∧
      TransGen (DependsOn circle) "a" "a" ∧
      (∀ r ∈ s.bindings forward.reverse, ∃ t, r = .ok t) ∧
      HoldsExactly (s.afterAll (forward.reverse.map .bind)).environment forward ∧
      ∃ statement ∈ circle.reverse,
        .error (.recursive statement) ∈ s.bindings circle.reverse := by
  intro s forward circle
  have ha : Defines "a = b b" (.app (.var "b") (.var "b")) :=
    ⟨by decide, by decide, by decide +kernel⟩
  have hb : Defines "b = \\x. x" (.abs "x" (.var "x")) :=
    ⟨by decide, by decide, by decide +kernel⟩
  have ha' : Defines "a = b" (.var "b") :=
    ⟨by decide, by decide, by decide +kernel⟩
  have hb' : Defines "b = \\x. a" (.abs "x" (.var "a")) :=
    ⟨by decide, by decide, by decide +kernel⟩
  have hforward : ∀ statement ∈ forward, ∃ t, Defines statement t := by
    simp only [forward, List.forall_mem_cons, List.not_mem_nil,
      false_implies, implies_true, and_true]
    exact ⟨⟨_, ha⟩, ⟨_, hb⟩⟩
  have hcircle : ∀ statement ∈ circle, ∃ t, Defines statement t := by
    simp only [circle, List.forall_mem_cons, List.not_mem_nil,
      false_implies, implies_true, and_true]
    exact ⟨⟨_, ha'⟩, ⟨_, hb'⟩⟩
  have hdistinct : (forward.map definedName).Nodup := by decide
  have hdistinct' : (circle.map definedName).Nodup := by decide
  have hnames : definedName "a = b b" = "a" ∧
      definedName "b = \\x. x" = "b" := by decide
  have hself : ¬ Environment.Reaches ∅ (definedName "a = b b")
      (.app (.var "b") (.var "b")) := by
    rw [hnames.1]
    exact Environment.not_reaches (by cbv)
  have hself' : ¬ Environment.Reaches
      (Table.insert ∅ (definedName "a = b b") (.app (.var "b") (.var "b")))
      (definedName "b = \\x. x") (.abs "x" (.var "x")) := by
    rw [hnames.1, hnames.2]
    exact Environment.not_reaches (by cbv)
  have hold := (holdsExactly_empty.insert ha (by decide)).insert hb (by decide)
  have henv := Environment.acyclic_insert
    (Environment.acyclic_insert Environment.acyclic_empty hself) hself'
  have hacyclic : ∀ x, ¬ TransGen (DependsOn forward) x x :=
    (hold.acyclic_iff hforward).1 henv
  have hab : DependsOn circle "a" "b" :=
    ⟨by decide, "a = b", by decide, .var "b", by decide, ha', by decide⟩
  have hba : DependsOn circle "b" "a" :=
    ⟨by decide, "b = \\x. a", by decide, .abs "x" (.var "a"), by decide, hb',
      by decide⟩
  have hcycle : TransGen (DependsOn circle) "a" "a" := .tail (.single hab) hba
  have hstart : s.environment = ∅ := rfl
  have hreversed := (bindings_any_order hstart hforward hdistinct).1 hacyclic
    forward.reverse (List.reverse_perm forward)
  have hrefused := (bindings_any_order hstart hcircle hdistinct').2
    ⟨"a", hcycle⟩ circle.reverse (List.reverse_perm circle)
  exact ⟨hstart, hforward, hcircle, hdistinct, hdistinct', hacyclic, hcycle,
    hreversed.1, hreversed.2.1, hrefused⟩

end Session

end UntypedLambda
