import UntypedLambda.Proofs.Grammar.Spacing
import UntypedLambda.Proofs.Session.Routing
import UntypedLambda.Proofs.Text.Json

/-!
# The tree that is shown is that of the term

The command `:p` shows the tree of the term that a text writes, without unfolding
definitions, so its answer is the same in every session.  Nothing of the text is lost
on the way to the command: a text that writes a term holds no semicolon, so no
comment is cut off, and blanks around it do not matter.  Two texts are answered in
the same way exactly if they write the same term, because the answer determines the
tree (`Term.pretty_outline_inj`).

## Main results

* `parse_trimmed_clean`: a text that writes a term writes it as a line, too.
* `execute_outline`: the answer of the command.
* `outlines_agree_iff`: when two answers are the same.
-/

namespace UntypedLambda.Session

/-- A text that writes a term has no comment. -/
theorem not_mem_semicolon_of_parse {expr : String} {t : Term}
    (h : Grammar.parse expr = .ok t) : ';' ∉ expr.toList := by
  intro hmem
  obtain ⟨e, he⟩ := Grammar.tokenize_error_of_mem hmem (by decide) (by decide)
    (by decide) (by decide)
  rw [Grammar.parse, he] at h
  cases h

theorem trimmed_clean_of_parse {expr : String} {t : Term}
    (h : Grammar.parse expr = .ok t) : trimmed (clean expr) = trimmed expr := by
  have hmark : ¬ commentMark <:+: expr.toList := fun hmark =>
    not_mem_semicolon_of_parse h (hmark.subset (by simp [commentMark]))
  apply String.toList_injective
  rw [toList_trimmed, toList_clean, cleanChars, (dropComment_eq_self_iff _).2 hmark,
    Text.trim_trimRight, toList_trimmed]

/-- A text that writes a term writes it as a line, too. -/
theorem parse_trimmed_clean {expr : String} {t : Term}
    (h : Grammar.parse expr = .ok t) : Grammar.parse (trimmed (clean expr)) = .ok t := by
  rw [trimmed_clean_of_parse h]
  refine Grammar.parse_trim ?_
  rwa [String.ofList_toList]

theorem ne_empty_of_parse {expr : String} {t : Term} (h : Grammar.parse expr = .ok t) :
    expr ≠ "" := by
  rintro rfl
  have hempty : (Grammar.parse "").toOption = none := by decide +kernel
  rw [h] at hempty
  cases hempty

/-- The command shows the tree of the term and leaves the session as it is. -/
theorem execute_outline {expr : String} {t : Term} (h : Grammar.parse expr = .ok t)
    (s : Session) :
    s.execute (":p " ++ expr) = .ok ({ output := some t.outline.pretty }, s) := by
  have hline := parse_trimmed_clean h
  have hword : ∀ c ∈ "p".toList, Text.isBlank c = false ∧ c ≠ ';' :=
    Text.forall_mem_of_all (by decide)
  obtain ⟨line, hexecute⟩ :=
    execute_joinLines s (by decide) hword (ne_empty_of_parse hline)
  have hjoined : joinLines (":" ++ "p") expr = ":p " ++ expr := rfl
  rw [← hjoined, hexecute]
  show (parse (trimmed (clean expr))).map _ = _
  rw [parse, hline]
  rfl

/-- **The tree that is shown is faithful.**  In every session, texts that write terms
are answered with their trees, and the answers are the same exactly if the terms
are. -/
theorem outlines_agree_iff {a b : String} {t u : Term} (ha : Grammar.parse a = .ok t)
    (hb : Grammar.parse b = .ok u) (s : Session) :
    ∃ shown shown',
      s.execute (":p " ++ a) = .ok ({ output := some shown }, s) ∧
        s.execute (":p " ++ b) = .ok ({ output := some shown' }, s) ∧
        (shown = shown' ↔ t = u) :=
  ⟨t.outline.pretty, u.outline.pretty, execute_outline ha s, execute_outline hb s,
    Term.pretty_outline_inj⟩

/-- Two ways of writing one term, and a term that differs from it by parentheses. -/
theorem outlines_agree_iff_spaced :
    let s := typedIn ⟨.plain, true, ∅⟩ .usual
    (∃ shown, s.execute ":p λf.λx.f (f x)" = .ok ({ output := some shown }, s) ∧
      s.execute ":p \\f x. f(f x)" = .ok ({ output := some shown }, s)) ∧
    ∃ shown shown', shown ≠ shown' ∧
      s.execute ":p λf.λx.f (f x)" = .ok ({ output := some shown }, s) ∧
      s.execute ":p λf.λx.f f x" = .ok ({ output := some shown' }, s) := by
  intro s
  let body := Term.abs "f" (.abs "x" (.app (.var "f") (.app (.var "f") (.var "x"))))
  have ha : Grammar.parse "λf.λx.f (f x)" = .ok body := by with_unfolding_all rfl
  have hb : Grammar.parse "\\f x. f(f x)" = .ok body := by with_unfolding_all rfl
  have hc : Grammar.parse "λf.λx.f f x" = .ok (Term.abs "f" (.abs "x"
      (.app (.app (.var "f") (.var "f")) (.var "x")))) := by with_unfolding_all rfl
  obtain ⟨shown, shown', hshown, hshown', hiff⟩ := outlines_agree_iff ha hb s
  obtain ⟨other, other', hother, hother', hne⟩ := outlines_agree_iff ha hc s
  refine ⟨⟨shown, hshown, ?_⟩, other, other', fun h => ?_, hother, hother'⟩
  · rw [hiff.2 rfl]
    exact hshown'
  · exact absurd (hne.1 h) (by decide)

end UntypedLambda.Session
