import UntypedLambda.Proofs.Grammar.RoundTrip
import UntypedLambda.Proofs.Reduction.Evaluation
import UntypedLambda.Proofs.Reduction.Names
import UntypedLambda.Proofs.Session.Atomicity
import UntypedLambda.Proofs.Session.Line

/-!
# Results can be fed back

What a session shows as the result of an expression can be typed in again.  The
names of the result are names of the expression and of definitions, with marks
appended to some, so they can all be written, and the written form of the result
is read back as the result.

As a line, too, it is taken for what it is.  Nothing in the written form starts
a comment or makes a definition of it, and it starts and ends with characters
that are neither blank nor a colon (`Tidy`).  So the line asks for the
evaluation of the result, and a result in normal form is evaluated to itself.

## Main results

* `tidy_text`: what the written form of a term looks like from outside.
* `execute_of_tidy`: a line of this look asks for its evaluation.
* `execute_normal_form`: a normal form, run as a line, shows itself.
* `results_read_back`: results can be fed back to the session they are from.
-/

namespace UntypedLambda

namespace Grammar

/-! ## The written form as a line -/

/-- A character that a written term can start or end with. -/
def isOuterChar (c : Char) : Bool :=
  isNameChar c || c = 'λ' || c = '(' || c = ')'

/-- A character of a written term. -/
def isTextChar (c : Char) : Bool := isOuterChar c || c = '.' || c = ' '

/-- A text of characters of written terms that has an outer character at both
ends. -/
structure Tidy (cs : List Char) : Prop where
  chars : ∀ c ∈ cs, isTextChar c = true
  start : ∃ c rest, cs = c :: rest ∧ isOuterChar c = true
  stop : ∃ front c, cs = front ++ [c] ∧ isOuterChar c = true

theorem tidy_name {x : Name} (h : ValidName x) : Tidy x.toList := by
  obtain ⟨hne, hchars⟩ := h
  have houter : ∀ c ∈ x.toList, isOuterChar c = true := by
    intro c hc
    simp [isOuterChar, hchars c hc]
  have hnil : x.toList ≠ [] := fun h => hne (String.toList_eq_nil_iff.1 h)
  refine ⟨?_, ?_, ?_⟩
  · intro c hc
    simp [isTextChar, houter c hc]
  · obtain ⟨c, rest, hx⟩ := List.exists_cons_of_ne_nil hnil
    exact ⟨c, rest, hx, houter c (by simp [hx])⟩
  · refine ⟨x.toList.dropLast, x.toList.getLast hnil, ?_, ?_⟩
    · exact (List.dropLast_append_getLast hnil).symm
    · exact houter _ (List.getLast_mem hnil)

theorem tidy_append {cs ds mid : List Char} (hc : Tidy cs)
    (hd : Tidy ds) (hmid : ∀ c ∈ mid, isTextChar c = true) :
    Tidy (cs ++ mid ++ ds) := by
  obtain ⟨c, rest, hcs, hfirst⟩ := hc.start
  obtain ⟨front, d, hds, hlast⟩ := hd.stop
  refine ⟨?_, ⟨c, rest ++ mid ++ ds, by simp [hcs], hfirst⟩,
    ⟨cs ++ mid ++ front, d, by simp [hds], hlast⟩⟩
  simp only [List.forall_mem_append]
  exact ⟨⟨hc.chars, hmid⟩, hd.chars⟩

theorem tidy_mark {c : Char} (h : isOuterChar c = true) : Tidy [c] := by
  refine ⟨?_, ⟨c, [], rfl, h⟩, ⟨[], c, rfl, h⟩⟩
  simp [isTextChar, h]

theorem tidy_parens {s : String} (h : Tidy s.toList) :
    Tidy (Term.parens s).toList := by
  have hopen : Tidy ['('] := tidy_mark (by decide)
  have hclose : Tidy [')'] := tidy_mark (by decide)
  have hwhole := tidy_append hopen hclose h.chars
  simpa [Term.parens] using hwhole

/-- The written form of a term with valid names. -/
theorem tidy_text {t : Term} (h : ∀ x ∈ t.names, ValidName x) :
    Tidy t.text.toList := by
  induction t with
  | var x => exact tidy_name (h x (by simp [Term.names]))
  | abs x b ih =>
      rw [Term.names, List.forall_mem_cons] at h
      have hmark : Tidy ['λ'] := tidy_mark (by decide)
      have hmid : ∀ c ∈ x.toList ++ ['.'], isTextChar c = true := by
        rw [List.forall_mem_append]
        exact ⟨(tidy_name h.1).chars, List.forall_mem_singleton.2 (by decide)⟩
      have hwhole := tidy_append hmark (ih h.2) hmid
      simpa [Term.text] using hwhole
  | app f a ihf iha =>
      rw [Term.names, List.forall_mem_append] at h
      have hf : Tidy (fnText f).toList := by
        cases f with
        | abs x b => exact tidy_parens (ihf h.1)
        | var x | app g b => exact ihf h.1
      have ha : Tidy (argText a).toList := by
        cases a with
        | var x => exact iha h.2
        | abs x b | app g b => exact tidy_parens (iha h.2)
      rw [toList_text_app]
      have hspace : ∀ c ∈ [' '], isTextChar c = true :=
        List.forall_mem_singleton.2 (by decide)
      have hwhole := tidy_append hf ha hspace
      simpa using hwhole

theorem not_isBlank_of_isOuterChar {c : Char} (h : isOuterChar c = true) :
    Text.isBlank c = false := by
  simp only [isOuterChar, Bool.or_eq_true, decide_eq_true_eq] at h
  rcases h with ((h | rfl) | rfl) | rfl
  · exact not_isBlank_of_isNameChar h
  all_goals decide

/-- What can be part of a line but not of a written term is not in one. -/
theorem Tidy.not_mem {cs : List Char} (h : Tidy cs) {c : Char}
    (hc : isTextChar c = false) : c ∉ cs := by
  intro hmem
  rw [h.chars c hmem] at hc
  cases hc

end Grammar

namespace Session

open Grammar (Tidy)
open Text (SolidStart SolidEnd)

/-! ## A written term as a line -/

theorem hasOuterEquals_of_not_mem {cs : List Char} (h : '=' ∉ cs) (depth : Int) :
    hasOuterEquals depth cs = false := by
  fun_induction hasOuterEquals depth cs with
  | case1 => rfl
  | case2 depth cs ih => exact ih (by simpa using h)
  | case3 depth cs ih => exact ih (by simpa using h)
  | case4 depth c cs hopen hclose ih =>
      rw [List.mem_cons, not_or] at h
      simp [Ne.symm h.1, ih h.2]

/-- Nothing of a written term is taken for a comment or trimmed. -/
theorem trimmed_clean_of_tidy {s : String} (h : Tidy s.toList) :
    trimmed (clean s) = s := by
  have hstart : SolidStart s.toList := by
    obtain ⟨c, rest, hs, hc⟩ := h.start
    intro d hd
    rw [hs] at hd
    cases hd
    exact Grammar.not_isBlank_of_isOuterChar hc
  have hend : SolidEnd s.toList := by
    obtain ⟨front, c, hs, hc⟩ := h.stop
    intro d hd
    rw [hs, List.getLast?_concat] at hd
    cases hd
    exact Grammar.not_isBlank_of_isOuterChar hc
  have hmark : ¬ commentMark <:+: s.toList := by
    intro hmark
    exact h.not_mem (c := ';') (by decide) (hmark.subset (by simp [commentMark]))
  apply String.toList_injective
  rw [toList_trimmed, toList_clean, Clean.cleanChars_eq ⟨hmark, hend⟩,
    Text.trim_of_solid hstart hend]

/-- A line that is a written term asks for its evaluation. -/
theorem ofLine_of_tidy {s : String} (h : Tidy s.toList) :
    Command.ofLine s = .evaluate s := by
  have hcolon : ¬ ∃ rest, s.toList = ':' :: rest := by
    rintro ⟨rest, hs⟩
    exact h.not_mem (c := ':') (by decide) (by simp [hs])
  have hdef : isDefinition s = false :=
    hasOuterEquals_of_not_mem (h.not_mem (by decide)) 0
  rw [ofLine_eq, colonWord?_eq_none hcolon]
  simp [hdef]

theorem execute_of_tidy (s : Session) {line : String}
    (h : Tidy line.toList) :
    s.execute line = s.perform (.evaluate line) := by
  have hne : line ≠ "" := by
    obtain ⟨c, rest, hs, -⟩ := h.start
    intro hempty
    rw [hempty] at hs
    cases hs
  rw [execute, trimmed_clean_of_tidy h, if_neg hne, ofLine_of_tidy h]

/-! ## Results -/

theorem keptByMark_validName : KeptByMark Grammar.ValidName := by
  intro x hx
  refine ⟨by simp [mark], ?_⟩
  rw [String.toList_append, List.forall_mem_append]
  exact ⟨hx.2, List.forall_mem_singleton.2 (by decide)⟩

/-- A ceiling that is not missing is a limit. -/
theorem exists_limit {ceiling : Ceiling} (h : ceiling ≠ .missing) :
    ∃ limit, ∀ t, ceiling.reduce? t = some (Reducer.reduce { term := t } limit) := by
  cases ceiling with
  | usual => exact ⟨none, fun _ => rfl⟩
  | passes n => exact ⟨some n, fun _ => rfl⟩
  | missing => exact absurd rfl h

section

variable {s : Session} {expr : String} {t : Term}

theorem expand_of_parse (hparse : Grammar.parse expr = .ok t) :
    s.expand expr = .ok (s.environment.expandTop t) := by
  unfold expand parse
  rw [hparse]
  rfl

theorem evaluate_of_parse {limit : Option Int}
    (hlimit : ∀ u, s.ceiling.reduce? u = some (Reducer.reduce { term := u } limit))
    (hparse : Grammar.parse expr = .ok t) :
    let r := s.environment.reduce t limit
    s.evaluate expr = .ok (r.term,
      if r.normal then [] else [s.handler.warn (ceilingNotice expr r.passes)]) := by
  intro r
  refine bind_eq_ok.2 ⟨_, expand_of_parse hparse, ?_⟩
  rw [hlimit]
  rfl

end

theorem validName_expandTop {env : Environment} (hwf : env.WellFormed)
    {t : Term} (ht : ∀ x ∈ t.names, Grammar.ValidName x) :
    ∀ x ∈ (env.expandTop t).names, Grammar.ValidName x :=
  (Environment.unfolds_expandTop hwf.acyclic t).forall_names hwf.valid ht

theorem step_of_parse {s : Session} {expr : String} {t : Term}
    (hparse : Grammar.parse expr = .ok t) :
    s.step expr = .ok ((s.environment.expandTop t).stepTop.getD
      (s.environment.expandTop t)) := by
  rw [Session.step, expand_of_parse hparse]
  rfl

theorem validName_step {t : Term} (ht : ∀ x ∈ t.names, Grammar.ValidName x) :
    ∀ x ∈ (t.stepTop.getD t).names, Grammar.ValidName x := by
  cases hstep : t.stepTop with
  | none => exact ht
  | some u => exact Term.forall_names_step keptByMark_validName ht hstep

/-- A normal form with valid names that evaluation has ended with, run as a line,
shows itself. -/
theorem execute_normal_form {s : Session} (hacyclic : s.environment.Acyclic)
    {limit : Option Int}
    (hlimit : ∀ u, s.ceiling.reduce? u = some (Reducer.reduce { term := u } limit))
    {t : Term} (hnormal : (s.environment.reduce t limit).normal = true)
    (hvalid : ∀ x ∈ (s.environment.evaluate t limit).names, Grammar.ValidName x) :
    s.execute (s.environment.evaluate t limit).text =
      .ok ({ output := some (s.environment.evaluate t limit).text }, s) := by
  have hline := execute_of_tidy s (Grammar.tidy_text hvalid)
  have hback := evaluate_of_parse hlimit (Grammar.parse_text hvalid)
  -- the result is evaluated to itself without a contraction
  have hagain := (Environment.evaluate_idempotent hacyclic hnormal limit).2.1
  rw [hagain] at hback
  rw [hline, perform, hback]
  rfl

/-- **Results can be fed back.**  In a session that started without definitions,
an expression that can be read is unfolded, contracted and evaluated, and each
result is read back from its written form.  If the evaluation has not met its
ceiling, then the written form of its result, run as a line, shows itself and
nothing else, and changes nothing. -/
theorem results_read_back {start s : Session} (hstart : start.environment = ∅)
    (hreach : start.Reachable s) {expr : String} {t : Term}
    (hparse : Grammar.parse expr = .ok t) :
    (∃ r, s.expand expr = .ok r ∧ Grammar.parse r.text = .ok r) ∧
      (∃ r, s.step expr = .ok r ∧ Grammar.parse r.text = .ok r) ∧
      (s.ceiling ≠ .missing → ∃ r reports, s.evaluate expr = .ok (r, reports) ∧
        Grammar.parse r.text = .ok r ∧
        (reports = [] → s.execute r.text = .ok ({ output := some r.text }, s))) := by
  have hwf := hreach.wellFormed hstart
  have hnames := validName_expandTop hwf (Grammar.names_parse hparse)
  refine ⟨?_, ?_, fun hceiling => ?_⟩
  · exact ⟨_, expand_of_parse hparse, Grammar.parse_text hnames⟩
  · exact ⟨_, step_of_parse hparse, Grammar.parse_text (validName_step hnames)⟩
  · obtain ⟨limit, hlimit⟩ := exists_limit hceiling
    have hvalid : ∀ x ∈ (s.environment.evaluate t limit).names,
        Grammar.ValidName x :=
      Reducer.forall_names_reduceNat keptByMark_validName _ hnames
    refine ⟨_, _, evaluate_of_parse hlimit hparse, Grammar.parse_text hvalid, ?_⟩
    intro hreports
    have hnormal : (s.environment.reduce t limit).normal = true := by
      by_contra hnot
      simp [hnot] at hreports
    exact execute_normal_form hwf.acyclic hlimit hnormal hvalid

/-- The result has a name with a mark, which was made on the way. -/
theorem results_read_back_marked :
    let start := typedIn ⟨.plain, true, ∅⟩ (.passes 1)
    let s := start.after (.bind "k = \\x y. x")
    let r := Term.abs "y'" (.var "y")
    start.environment = ∅ ∧ start.Reachable s ∧ s.ceiling ≠ .missing ∧
      Grammar.parse "k y" = .ok (.app (.var "k") (.var "y")) ∧
      s.evaluate "k y" = .ok (r, []) ∧ r.text = "λy'.y" ∧
      s.execute "λy'.y" = .ok ({ output := some "λy'.y" }, s) := by
  intro start s r
  let k := Term.abs "x" (.abs "y" (.var "x"))
  let env : Environment := Table.insert ∅ "k" k
  let t := Term.app (.var "k") (.var "y")
  have hreach : start.Reachable s := .call _ .start
  have hparse : Grammar.parse "k y" = .ok t := by decide +kernel
  have hself : ¬ Environment.Reaches ∅ "k" k := Environment.not_reaches (by cbv)
  have hbind : start.bind "k = \\x y. x" =
      .ok (k, { start with environment := env }) :=
    bind_eq_ok_iff.2 ⟨by decide, by decide, by decide +kernel, hself, rfl⟩
  have hs : s = { start with environment := env } := after_bind hbind
  have hceiling : s.ceiling ≠ .missing := by
    rw [hs]
    decide
  have hlimit : ∀ u, s.ceiling.reduce? u =
      some (Reducer.reduce { term := u } (some 1)) := by
    rw [hs]
    exact fun _ => rfl
  have hterm : (env.reduce t (some 1)).term = r := by decide +kernel
  have hnormal : (env.reduce t (some 1)).normal = true := by decide +kernel
  have heval : s.evaluate "k y" = .ok (r, []) := by
    have henv : s.environment = env := by rw [hs]
    rw [evaluate_of_parse hlimit hparse, henv, hterm, if_pos hnormal]
  obtain ⟨r', reports, heval', -, hback⟩ :=
    (results_read_back rfl hreach hparse).2.2 hceiling
  rw [heval] at heval'
  cases heval'
  exact ⟨rfl, hreach, hceiling, hparse, heval, by decide, hback rfl⟩

end Session

end UntypedLambda
