import UntypedLambda.Proofs.Session.WellFormed

/-!
# Definitions that are refused

A statement that defines a name is taken up or refused as recursive.  What
decides is a search through the definitions that the term leads to, which looks
for the name.  The search comes to the same in whatever order it lists the free
names of a term, and whether or not the new definition has been entered already,
because it stops at the name and never looks up its definition.

A definition closes a cycle exactly if its term leads back to its name.  So in an
acyclic environment the definitions that are refused are those after which it
would not be acyclic any more, and all others are taken up.

## Main results

* `bind_eq_recursive_iff`: a definition is refused exactly if its term leads back
  to its name.
* `reaches_insert`: the new definition does not matter for the search.
* `acyclic_insert_iff`: a definition closes a cycle exactly if its term leads
  back to its name.
* `bind_refuses_cycles`: the search is exact, and what it makes of definitions.
-/

namespace UntypedLambda

namespace Environment

variable {env : Environment} {name : Name}

/-- The definition of a name does not matter for whether the name is reached. -/
theorem reaches_insert (t u : Term) :
    Reaches (env.insert name t) name u ↔ env.Reaches name u := by
  constructor
  · intro h
    obtain ⟨x, hx, hpath⟩ := h
    exact ⟨x, hx, path_to_inserted hpath⟩
  · intro h
    obtain ⟨x, hx, hpath⟩ := h
    exact ⟨x, hx, path_to_replaced hpath⟩

/-- A definition closes a cycle exactly if its term leads back to its name. -/
theorem acyclic_insert_iff (hacyclic : env.Acyclic) (name : Name) (t : Term) :
    Acyclic (env.insert name t) ↔ ¬ env.Reaches name t :=
  ⟨not_reaches_of_acyclic_insert, acyclic_insert hacyclic⟩

/-- In whatever order free names are listed, the search from a term finds what
the term leads to. -/
theorem search_listed_iff (env : Environment) {listed : Term → List Name}
    (hlisted : ∀ u y, y ∈ listed u ↔ y ∈ u.freeNames) (goal : Name) (t : Term) :
    env.search listed goal [] (listed t) = true ↔ env.Reaches goal t := by
  rw [search_iff hlisted]
  simp only [hlisted, Reaches]

end Environment

namespace Session

/-! ## Statements that define names -/

/-- A statement with a valid name before its equals sign and a term after it. -/
structure Defines (statement : String) (t : Term) : Prop where
  mark : '=' ∈ statement.toList
  name : Grammar.ValidName (definedName statement)
  term : Grammar.parse (definingText statement) = .ok t

theorem Defines.unique {statement : String} {t t' : Term}
    (h : Defines statement t) (h' : Defines statement t') : t = t' := by
  have hterm := h.term
  rw [h'.term, Except.ok.injEq] at hterm
  exact hterm.symm

theorem bind_of_not_reaches {s : Session} {statement : String} {t : Term}
    (h : Defines statement t)
    (hreach : ¬ s.environment.Reaches (definedName statement) t) :
    s.bind statement = .ok (t, { s with
      environment := s.environment.insert (definedName statement) t }) :=
  bind_eq_ok_iff.2 ⟨h.mark, h.name, h.term, hreach, rfl⟩

/-- A definition is refused as recursive exactly if it leads back to its own
name. -/
theorem bind_eq_recursive_iff {s : Session} {statement : String} :
    s.bind statement = .error (.recursive statement) ↔
      ∃ t, Defines statement t ∧
        s.environment.Reaches (definedName statement) t := by
  unfold Session.bind
  simp only [refuse_eq_error, bind_eq_error, mapError_eq_error, mapError_eq_ok,
    parse, reduceCtorEq, and_false, exists_false, false_or, pure_ne_error,
    or_false, and_true]
  constructor
  · intro h
    obtain ⟨hmark, -, tokens, htokens, hsingle, t, hparse, hreach⟩ := h
    have hvalid : Grammar.ValidName (definedName statement) :=
      (validName_iff_isSingleName statement).2
        ⟨tokens, htokens, by simpa using hsingle⟩
    exact ⟨t, ⟨by simpa using hmark, hvalid, hparse⟩,
      (Environment.reaches_iff t).1 hreach⟩
  · intro h
    obtain ⟨t, ⟨hmark, hvalid, hparse⟩, hreach⟩ := h
    obtain ⟨tokens, htokens, hsingle⟩ :=
      (validName_iff_isSingleName statement).1 hvalid
    exact ⟨by simpa using hmark, hvalid.1, tokens, htokens, by simp [hsingle],
      t, hparse, (Environment.reaches_iff t).2 hreach⟩

/-! ## Cycles -/

/-- **A definition is refused exactly if it would close a cycle.**  In any
environment, cyclic or not, the search finds a name exactly if the term leads
there, in whatever order free names are listed and whatever definition the name
is given itself.  So in an acyclic environment a statement that defines a name is
refused as recursive exactly if the environment would not be acyclic with the
definition, and is taken up otherwise. -/
theorem bind_refuses_cycles :
    (∀ (env : Environment) (listed : Term → List Name),
      (∀ u y, y ∈ listed u ↔ y ∈ u.freeNames) → ∀ (name : Name) (t u : Term),
        (env.search listed name [] (listed t) = true ↔ env.Reaches name t) ∧
          env.search listed name [] (listed t) = env.reaches name t ∧
          Environment.search (env.insert name u) listed name [] (listed t) =
            env.reaches name t) ∧
      ∀ (s : Session) (statement : String) (t : Term),
        s.environment.Acyclic → Defines statement t →
        let env := s.environment.insert (definedName statement) t
        (s.bind statement = .error (.recursive statement) ↔
            ¬ Environment.Acyclic env) ∧
          (Environment.Acyclic env →
            s.bind statement = .ok (t, { s with environment := env })) := by
  constructor
  · intro env listed hlisted name t u
    have hsearch := env.search_listed_iff hlisted name t
    have hinserted := Environment.search_listed_iff (env.insert name u) hlisted name t
    rw [Environment.reaches_insert] at hinserted
    refine ⟨hsearch, ?_, ?_⟩
    · rw [Bool.eq_iff_iff, hsearch, Environment.reaches_iff]
    · rw [Bool.eq_iff_iff, hinserted, Environment.reaches_iff]
  · intro s statement t hacyclic hdefines env
    have hclosed :=
      Environment.acyclic_insert_iff hacyclic (definedName statement) t
    constructor
    · rw [hclosed, Classical.not_not, bind_eq_recursive_iff]
      constructor
      · intro h
        obtain ⟨u, hu, hreach⟩ := h
        rw [hdefines.unique hu]
        exact hreach
      · intro hreach
        exact ⟨t, hdefines, hreach⟩
    · intro henv
      exact bind_of_not_reaches hdefines (hclosed.1 henv)

/-- A chain through two other definitions leads back to the name that is given
another definition. -/
theorem bind_refuses_cycles_chain :
    let env : Environment :=
      ((Table.insert ∅ "a" (.var "x")).insert "b"
        (.app (.var "c") (.var "d"))).insert "d" (.var "a")
    let s := { typedIn ⟨.plain, true, ∅⟩ .usual with environment := env }
    let t := Term.abs "x" (.app (.var "x") (.var "b"))
    env.Acyclic ∧ Defines "a = \\x. x b" t ∧
      env.search (fun u => u.freeNames.reverse) "a" [] ["b"] = true ∧
      s.bind "a = \\x. x b" = .error (.recursive "a = \\x. x b") ∧
      ¬ Environment.Acyclic (env.insert "a" t) := by
  intro env s t
  have ha : Environment.reaches ∅ "a" (.var "x") = false := by cbv
  have hb : Environment.reaches (Table.insert ∅ "a" (.var "x")) "b"
      (.app (.var "c") (.var "d")) = false := by cbv
  have hd : Environment.reaches ((Table.insert ∅ "a" (.var "x")).insert "b"
      (.app (.var "c") (.var "d"))) "d" (.var "a") = false := by cbv
  have hacyclic : env.Acyclic :=
    Environment.acyclic_insert_of_reaches
      (Environment.acyclic_insert_of_reaches
        (Environment.acyclic_insert_of_reaches Environment.acyclic_empty ha) hb)
      hd
  have hdefines : Defines "a = \\x. x b" t :=
    ⟨by decide, by decide, by with_unfolding_all rfl⟩
  have hname : definedName "a = \\x. x b" = "a" := by decide
  have hreaches : env.reaches "a" (.var "b") = true := by cbv
  obtain ⟨hsearch, hbind⟩ := bind_refuses_cycles
  obtain ⟨-, hsame, -⟩ := hsearch env (fun u => u.freeNames.reverse)
    (fun u y => List.mem_reverse) "a" (.var "b") t
  have hpath : env.Reaches "a" t :=
    (Environment.reaches_iff t).1 (by cbv)
  have hcyclic : ¬ Environment.Acyclic (env.insert "a" t) := fun h =>
    Environment.not_reaches_of_acyclic_insert h hpath
  have hrefused := (hbind s "a = \\x. x b" t hacyclic hdefines).1
  rw [hname] at hrefused
  exact ⟨hacyclic, hdefines, hsame.trans hreaches, hrefused.2 hcyclic, hcyclic⟩

end Session

end UntypedLambda
