import UntypedLambda.Proofs.Grammar.Legality
import UntypedLambda.Proofs.Session.Atomicity
import UntypedLambda.Proofs.Session.Line

/-!
# Where a line goes

A line without a colon in front is a definition if it has an equals sign outside
of all parentheses, and a term to evaluate otherwise.  To take up a definition is
to look at it in another way: it is cut at its first equals sign, wherever that
stands.

The two ways of looking at a line do not part.  What can be taken up has a name
before its first equals sign, so there is no parenthesis there and the line is a
definition.  And what is not a definition but has an equals sign is not evaluated
either, because an equals sign is no part of any token.

So a line without a colon is one with the colon left out: `:let` in front of a
definition and `:e` in front of anything else change nothing.

## Main results

* `isDefinition_of_bind`: what can be taken up is a definition.
* `evaluate_error_of_mem`: what has an equals sign cannot be evaluated.
* `colonWord?_joinLines`: what a line with a colon asks for.
* `routing_agrees_with_bind`: where a line without a colon goes.
-/

namespace UntypedLambda.Session

open Grammar (isNameChar ValidName)
open Text (SolidStart SolidEnd isBlank trim)

/-! ## Equals signs -/

/-- An equals sign with no parenthesis before it is outside of all. -/
theorem hasOuterEquals_append {front : List Char} (hopen : '(' ∉ front)
    (hclose : ')' ∉ front) (rest : List Char) :
    hasOuterEquals 0 (front ++ '=' :: rest) = true := by
  induction front with
  | nil => rfl
  | cons c front ih =>
      rw [List.mem_cons, not_or] at hopen hclose
      rw [List.cons_append, hasOuterEquals, ih hopen.2 hclose.2, Bool.or_true]
      · exact fun h => hopen.1 h.symm
      · exact fun h => hclose.1 h.symm

/-- There is no parenthesis in or around a valid name. -/
theorem not_mem_of_validName_trim {cs : List Char}
    (h : ValidName (String.ofList (trim cs))) {c : Char} (hc : c = '(' ∨ c = ')') :
    c ∉ cs := by
  rw [← List.count_eq_zero, ← count_trim (isBlank_paren hc), List.count_eq_zero]
  intro hmem
  have hname := h.2 c (by rw [String.toList_ofList]; exact hmem)
  rcases hc with rfl | rfl <;> exact absurd hname (by decide)

/-- What can be taken up is a definition. -/
theorem isDefinition_of_bind {s s' : Session} {text : String} {t : Term}
    (h : s.bind text = .ok (t, s')) : isDefinition text = true := by
  obtain ⟨hmark, hname, -⟩ := bind_eq_ok_iff.1 h
  obtain ⟨front, rest, htext, hfirst⟩ := List.eq_append_cons_of_mem hmark
  rw [definedName, splitAtChar_of_toList htext hfirst] at hname
  have hfront : ValidName (String.ofList (trim front)) := by
    simpa [trimmed] using hname
  rw [isDefinition, htext]
  exact hasOuterEquals_append (not_mem_of_validName_trim hfront (.inl rfl))
    (not_mem_of_validName_trim hfront (.inr rfl)) rest

/-- What has an equals sign is no term. -/
theorem evaluate_error_of_mem {text : String} (h : '=' ∈ text.toList) (s : Session) :
    ∃ e, s.evaluate text = .error e := by
  obtain ⟨illegal, hillegal⟩ := Grammar.tokenize_error_of_mem h (by decide)
    (by decide) (by decide) (by decide)
  refine ⟨.grammar text (.illegal illegal), ?_⟩
  have hparse : Grammar.parse text = .error (.illegal illegal) := by
    rw [Grammar.parse, hillegal]
    rfl
  unfold evaluate expand parse
  rw [hparse]
  rfl

/-! ## Lines with a colon -/

/-- A line that is joined to a word stays apart from it, and only its end is
trimmed. -/
theorem cleanChars_join_of_ne_nil {front rest : List Char} (h : Clean front)
    (hrest : cleanChars rest ≠ []) :
    cleanChars (front ++ ' ' :: rest) = front ++ ' ' :: cleanChars rest := by
  have hrest' : Text.trimRight (dropComment rest) ≠ [] := hrest
  have hsplit := Text.trimRight_append_eq [' '] (dropComment rest)
  rw [if_neg hrest'] at hsplit
  rw [h.cleanChars_join]
  exact congrArg (front ++ ·) hsplit

theorem colonWord?_eq_some {text : String} {rest : List Char}
    (htext : text.toList = ':' :: rest) :
    colonWord? text = some ((splitAtChar ' ' (String.ofList (trim rest))).1,
      trimmed (splitAtChar ' ' (String.ofList (trim rest))).2) := by
  rw [colonWord?, htext]
  rfl

/-- The word behind a colon ends at the first space. -/
theorem colonWord?_of_trim {text : String} {rest word arg : List Char}
    (htext : text.toList = ':' :: rest) (htrim : trim rest = word ++ ' ' :: arg)
    (hword : ' ' ∉ word) :
    colonWord? text = some (String.ofList word, trimmed (String.ofList arg)) := by
  have hsplit := splitAtChar_of_toList
    (String.toList_ofList (l := word ++ ' ' :: arg)) hword
  rw [colonWord?_eq_some htext, htrim, hsplit]

/-- A word and a text behind a colon are told apart, comment and blanks around the
text aside. -/
theorem colonWord?_joinLines {word arg : String} (hword : word ≠ "")
    (hchars : ∀ c ∈ word.toList, isBlank c = false ∧ c ≠ ';')
    (harg : trimmed (clean arg) ≠ "") :
    colonWord? (trimmed (clean (joinLines (":" ++ word) arg))) =
      some (word, trimmed (clean arg)) := by
  have hsolid : ∀ c ∈ ':' :: word.toList, isBlank c = false :=
    List.forall_mem_cons.2 ⟨by decide, fun c hc => (hchars c hc).1⟩
  have hfront : Clean (':' :: word.toList) := by
    refine ⟨fun hmark => ?_, fun c hc => hsolid c (List.mem_of_getLast? hc)⟩
    have hmem : ';' ∈ ':' :: word.toList := hmark.subset (by simp [commentMark])
    rcases List.mem_cons.1 hmem with hcolon | hmem
    · exact absurd hcolon (by decide)
    · exact (hchars ';' hmem).2 rfl
  have hne : cleanChars arg.toList ≠ [] := by
    intro hnil
    apply harg
    apply String.toList_injective
    rw [toList_trimmed, toList_clean, hnil]
    rfl
  have hend : SolidEnd (' ' :: cleanChars arg.toList) :=
    SolidEnd.append (clean_cleanChars _).solidEnd hne [' ']
  have hstart : SolidStart (word.toList ++ ' ' :: cleanChars arg.toList) := by
    obtain ⟨c, cs, hcs⟩ := List.exists_cons_of_ne_nil
      (mt String.toList_eq_nil_iff.1 hword)
    rw [hcs]
    rintro d ⟨⟩
    exact (hchars c (by simp [hcs])).1
  have hline : (trimmed (clean (joinLines (":" ++ word) arg))).toList =
      ':' :: (word.toList ++ ' ' :: cleanChars arg.toList) := by
    have hjoined : (joinLines (":" ++ word) arg).toList =
        (':' :: word.toList) ++ ' ' :: arg.toList := by simp [joinLines]
    rw [toList_trimmed, toList_clean, hjoined, cleanChars_join_of_ne_nil hfront hne]
    refine Text.trim_of_solid ?_ (hend.append (List.cons_ne_nil _ _) _)
    rintro c ⟨⟩
    decide
  have hspace : ' ' ∉ word.toList := fun h => absurd (hchars ' ' h).1 (by decide)
  have htrim := Text.trim_of_solid hstart (hend.append (List.cons_ne_nil _ _) _)
  rw [colonWord?_of_trim hline htrim hspace, String.ofList_toList]
  rfl

/-- A line with a colon asks for what its word does with its text. -/
theorem execute_joinLines (s : Session) {word arg : String} (hword : word ≠ "")
    (hchars : ∀ c ∈ word.toList, isBlank c = false ∧ c ≠ ';')
    (harg : trimmed (clean arg) ≠ "") :
    ∃ line, s.execute (joinLines (":" ++ word) arg) =
      s.perform (.ofWord line word (trimmed (clean arg))) := by
  have hparts := colonWord?_joinLines hword hchars harg
  refine ⟨_, execute_of_ofLine ?_ (by rw [ofLine_eq, hparts]) s⟩
  intro hempty
  rw [hempty] at hparts
  cases hparts

/-- **A line without a colon goes where it could be taken up.**  If the line can be
taken up, then running it is just that; if it has an equals sign and cannot be
taken up, then it fails and leaves the session as it was.  In every respect it
comes to the same as the line with `:let` in front, if it is a definition, and as
the line with `:e` in front if it is not. -/
theorem routing_agrees_with_bind {line : String}
    (hne : trimmed (clean line) ≠ "")
    (hcolon : (trimmed (clean line)).toList.head? ≠ some ':') (s : Session) :
    let text := trimmed (clean line)
    (∀ t s', s.bind text = .ok (t, s') →
        let shown := definedName text ++ " = " ++ t.text
        s.execute line =
          .ok ({ output := if s.interactive then some shown else none }, s')) ∧
      (∀ e, '=' ∈ text.toList → s.bind text = .error e →
        ∃ e', (executeInPlace line).run s = .error e' s) ∧
      s.execute line =
        s.execute ((if isDefinition text then ":let " else ":e ") ++ text) := by
  intro text
  have hcommand : Command.ofLine text =
      if isDefinition text then .define text else .evaluate text := by
    rw [ofLine_eq, colonWord?_eq_none]
    rintro ⟨rest, hrest⟩
    exact hcolon (by rw [hrest, List.head?_cons])
  have hline : s.execute line =
      s.perform (if isDefinition text then .define text else .evaluate text) :=
    execute_of_ofLine hne hcommand s
  have htext : trimmed (clean text) = text := trimmed_clean_idem line
  have hwith : ∀ word : String, word ≠ "" →
      (∀ c ∈ word.toList, isBlank c = false ∧ c ≠ ';') →
      ∃ line', s.execute ((":" ++ word) ++ " " ++ text) =
        s.perform (.ofWord line' word text) := by
    intro word hword hchars
    have hjoined := execute_joinLines s hword hchars (by rw [htext]; exact hne)
    rwa [htext] at hjoined
  refine ⟨fun t s' hbind => ?_, fun e hmark hbind => ?_, ?_⟩
  · rw [hline, isDefinition_of_bind hbind, if_pos rfl, perform, define, hbind]
    rfl
  · rw [run_executeInPlace, hline]
    by_cases hdef : isDefinition text = true
    · rw [if_pos hdef, perform, define, hbind]
      exact ⟨e, rfl⟩
    · obtain ⟨e', he'⟩ := evaluate_error_of_mem hmark s
      rw [if_neg hdef, perform, he']
      exact ⟨e', rfl⟩
  · by_cases hdef : isDefinition text = true
    · obtain ⟨line', hlet⟩ := hwith "let" (by decide) (Text.forall_mem_of_all (by decide))
      rw [hline, if_pos hdef, if_pos hdef]
      exact hlet.symm
    · obtain ⟨line', heval⟩ := hwith "e" (by decide) (Text.forall_mem_of_all (by decide))
      rw [hline, if_neg hdef, if_neg hdef]
      exact heval.symm

/-- A definition before a comment, and an equals sign between parentheses that are
the wrong way round. -/
theorem routing_agrees_with_bind_unbalanced :
    let s := typedIn ⟨.plain, true, ∅⟩ .usual
    let t := Term.abs "x" (.var "x")
    s.execute " k = \\x. x ;; (" = .ok ({ output := some "k = λx.x" },
        { s with environment := Table.insert ∅ "k" t }) ∧
      (∃ e, (executeInPlace "f) = (x").run s = .error e s) ∧
      s.execute "f) = (x" = s.execute ":e f) = (x" := by
  intro s t
  have hdefined : trimmed (clean " k = \\x. x ;; (") = "k = \\x. x" := by
    decide +kernel
  have hmisplaced : trimmed (clean "f) = (x") = "f) = (x" := by decide +kernel
  have hparse : Grammar.parse (definingText "k = \\x. x") = .ok t := by
    with_unfolding_all rfl
  have hname : definedName "k = \\x. x" = "k" := by decide
  have hself : ¬ s.environment.Reaches "k" t := Environment.not_reaches (by cbv)
  have hbind : s.bind "k = \\x. x" = .ok (t, { s with
      environment := s.environment.insert "k" t }) := by
    rw [bind_eq_ok_iff, hname]
    exact ⟨by decide, by decide, hparse, hself, rfl⟩
  have hrefused : s.bind "f) = (x" = .error (.badName "f) = (x") := by
    with_unfolding_all rfl
  obtain ⟨hrun, -, -⟩ := @routing_agrees_with_bind " k = \\x. x ;; ("
    (by rw [hdefined]; decide) (by rw [hdefined]; decide) s
  obtain ⟨-, hfail, hsame⟩ := @routing_agrees_with_bind "f) = (x"
    (by rw [hmisplaced]; decide) (by rw [hmisplaced]; decide) s
  rw [hdefined] at hrun
  rw [hmisplaced] at hfail hsame
  refine ⟨hrun t _ hbind, hfail _ (by decide) hrefused, ?_⟩
  rw [hsame, if_neg (by decide)]
  rfl

end UntypedLambda.Session
