import UntypedLambda.Proofs.Session.Atomicity
import UntypedLambda.Proofs.Session.Joining
import UntypedLambda.Proofs.Session.Source

/-!
# Where a run of a source file stops

A session runs the lines of its source file one after another until one fails or
asks for the end.  What a line does depends neither on the handler nor on what has
been shown before, so the lines can be run on the session itself, without a
handler that notes them (`RunsThrough`): the run makes the same of them.

Each line is noted in the trace before it is run, and the note is taken back only
if it does not fail.  So at the end of a run the trace points at the line that has
failed, if there is one, by the number of the first physical line that it is made
of, and at no line of the file otherwise.

## Main results

* `exists_runsThrough`: how far lines can be run.
* `execute_reporting`: the handler and the results make no difference to a line.
* `RunsThrough.runEnd_append`: what a run makes of lines that neither fail nor ask
  for the end.
* `run_stops_at_first_failure`: what has become of the session after a run.
-/

namespace UntypedLambda.Session

open Diagnostic

/-! ## Lines on their own -/

/-- A line asks for the end of the session. -/
def Quits (line : String) : Prop := commandWord? line ∈ [some "q", some "quit"]

instance : DecidablePred Quits := fun line =>
  inferInstanceAs (Decidable (commandWord? line ∈ [some "q", some "quit"]))

theorem execute_of_quits {line : String} (h : Quits line) (s : Session) :
    s.execute line = .ok ({}, { s with done := true }) := by
  have hword : ∃ word arg, word ∈ ["q", "quit"] ∧
      colonWord? (trimmed (clean line)) = some (word, arg) := by
    unfold Quits commandWord? at h
    cases hparts : colonWord? (trimmed (clean line)) with
    | none => simp [hparts] at h
    | some parts => exact ⟨parts.1, parts.2, by simpa [hparts] using h, rfl⟩
  obtain ⟨word, arg, hmem, hparts⟩ := hword
  have htext : trimmed (clean line) ≠ "" := by
    intro hempty
    rw [hempty] at hparts
    cases hparts
  have hcommand : Command.ofLine (trimmed (clean line)) = .quit := by
    rw [ofLine_eq, hparts]
    simp only [List.mem_cons, List.not_mem_nil, or_false] at hmem
    rcases hmem with rfl | rfl <;> rfl
  rw [execute_of_ofLine htext hcommand, perform]

/-- A line that does not ask for it does not end the session. -/
theorem done_of_execute {s s' : Session} {line : String} {reply : Reply}
    (h : s.execute line = .ok (reply, s')) (hquits : ¬ Quits line) :
    s'.done = s.done := by
  by_contra hdone
  exact hquits ((effect_of_execute h).done hdone)

/-- Lines can be run one after another, none of which asks for the end of the
session, and together show some texts. -/
inductive RunsThrough : Session → List Line → List String → Session → Prop where
  | nil (s : Session) : RunsThrough s [] [] s
  | cons {s s₁ s' : Session} {line : Line} {rest : List Line} {reply : Reply}
      {shown : List String} (hline : s.execute line.text = .ok (reply, s₁))
      (hquits : ¬ Quits line.text) (hrest : RunsThrough s₁ rest shown s') :
      RunsThrough s (line :: rest) (reply.output.toList ++ shown) s'

/-- Lines can be run up to one that fails or asks for the end of the session, or
all of them can. -/
theorem exists_runsThrough (s : Session) (lines : List Line) :
    ∃ front rest shown s', lines = front ++ rest ∧ s.RunsThrough front shown s' ∧
      ∀ line ∈ rest.head?, Quits line.text ∨
        ∃ e, s'.execute line.text = .error e := by
  induction lines generalizing s with
  | nil => exact ⟨[], [], [], s, rfl, .nil s, by simp⟩
  | cons line rest ih =>
      have hstop (h : Quits line.text ∨ ∃ e, s.execute line.text = .error e) :
          ∀ l ∈ (line :: rest).head?, Quits l.text ∨
            ∃ e, s.execute l.text = .error e := by
        rintro l ⟨⟩
        exact h
      by_cases hquits : Quits line.text
      · exact ⟨[], line :: rest, [], s, rfl, .nil s, hstop (.inl hquits)⟩
      · cases hexecute : s.execute line.text with
        | error e =>
            exact ⟨[], line :: rest, [], s, rfl, .nil s, hstop (.inr ⟨e, hexecute⟩)⟩
        | ok r =>
            obtain ⟨front, rest', shown, s', rfl, hruns, hhead⟩ := ih r.2
            exact ⟨line :: front, rest', _, s', rfl, .cons hexecute hquits hruns,
              hhead⟩

/-! ## The handler and the results -/

/-- A session with another handler and other results. -/
def reporting (s : Session) (handler : Handler) (results : List String) : Session :=
  { s with handler, results }

section

variable (s : Session) (handler : Handler) (results : List String)

theorem bind_reporting (statement : String) :
    (s.reporting handler results).bind statement =
      (s.bind statement).map fun r => (r.1, r.2.reporting handler results) := by
  unfold Session.bind
  simp only [bind_map, apply_ite (Except.map _)]
  rfl

/-- A warning may say something else, but the term is the same. -/
theorem evaluate_reporting (expr : String) :
    ((s.reporting handler results).evaluate expr).map Prod.fst =
      (s.evaluate expr).map Prod.fst := by
  unfold evaluate
  rw [bind_map, bind_map]
  refine congrArg (s.expand expr >>= ·) (funext fun t => ?_)
  dsimp only [reporting]
  cases s.ceiling.reduce? t <;> rfl

theorem perform_reporting (command : Command) :
    ((s.reporting handler results).perform command).map
        (fun r => (r.1.output, r.2)) =
      (s.perform command).map
        fun r => (r.1.output, r.2.reporting handler results) := by
  cases command with
  | quit | help | clear | unknown => rfl
  | define statement =>
      rw [perform, perform, define, define, bind_reporting]
      simp only [map_map]
      rfl
  | evaluate expr =>
      have hterm := congrArg
        (Except.map fun t => (some t.text, s.reporting handler results))
        (evaluate_reporting s handler results expr)
      rw [map_map, map_map] at hterm
      rw [perform, perform, map_map, map_map]
      exact hterm
  | number expr =>
      have hterm := congrArg
        (Except.map fun t => (some (numberText t), s.reporting handler results))
        (evaluate_reporting s handler results expr)
      rw [map_map, map_map] at hterm
      rw [perform, perform, Session.number, Session.number]
      simp only [map_map]
      exact hterm
  | outline expr => rw [perform, perform, map_map, map_map]
  | step expr | expand expr =>
      rw [perform, perform, map_map, map_map]
      rfl

/-- **What a line does depends neither on the handler nor on the results**, but
for what it reports. -/
theorem execute_reporting (line : String) :
    ((s.reporting handler results).execute line).map
        (fun r => (r.1.output, r.2)) =
      (s.execute line).map
        fun r => (r.1.output, r.2.reporting handler results) := by
  unfold execute
  by_cases htext : trimmed (clean line) = ""
  · rw [if_pos htext, if_pos htext]
    rfl
  · rw [if_neg htext, if_neg htext]
    exact perform_reporting s handler results _

end

/-! ## Lines of a run -/

/-- A handler when a line of a source file is being run. -/
def atLine (handler : Handler) (path : String) (line : Line) : Handler :=
  handler.enterLine path (some line.text) (some line.number)

theorem get?_leaveLine (handler : Handler) (path : String) :
    (handler.leaveLine path).trace.get? path = some .idle :=
  (Table.get?_insert _ _ _ _).trans (if_pos rfl)

theorem get?_atLine (handler : Handler) (path : String) (line : Line) :
    (atLine handler path line).trace.get? path =
      some ⟨some line.text, some line.number⟩ :=
  (Table.get?_insert _ _ _ _).trans (if_pos rfl)

theorem noted_reporting (s : Session) (handler : Handler) (results : List String)
    (line : Line) :
    (s.reporting handler results).noted line.text (some line.number) =
      s.reporting (atLine handler s.path line) results := rfl

theorem add_of_fails {s : Session} {line : Line} {e : Error}
    (h : s.execute line.text = .error e) (handler : Handler)
    (results : List String) :
    (s.reporting handler results).add line.text (some line.number) =
      (.error e, s.reporting (atLine handler s.path line) results) := by
  have hsame := execute_reporting s (atLine handler s.path line) results line.text
  rw [h, ← noted_reporting] at hsame
  exact add_of_error (map_eq_error.1 hsame)

theorem path_of_execute {s s' : Session} {line : String} {reply : Reply}
    (h : s.execute line = .ok (reply, s')) : s'.path = s.path := by
  have hframe := (effect_of_execute h).frame
  rw [hframe]

theorem add_of_runs {s s' : Session} {line : Line} {reply : Reply}
    (h : s.execute line.text = .ok (reply, s')) (handler : Handler)
    (results : List String) :
    ∃ reports, (s.reporting handler results).add line.text (some line.number) =
      (.ok { output := reply.output, reports },
        s'.reporting ((atLine handler s.path line).leaveLine s.path) results) := by
  have hsame := execute_reporting s (atLine handler s.path line) results line.text
  rw [h, ← noted_reporting] at hsame
  obtain ⟨⟨reply', s''⟩, hnoted, hpair⟩ := map_eq_ok.1 hsame
  obtain ⟨houtput, rfl⟩ := Prod.mk.inj hpair
  refine ⟨reply'.reports, ?_⟩
  rw [add_of_ok hnoted, ← houtput, ← path_of_execute h]
  rfl

/-- How a run of lines ends, reports aside: the failure, if there is one, and the
session after it. -/
def runEnd (lines : List Line) (s : Session) : Option Error × Session :=
  ((runLines lines s).1, (runLines lines s).2.2)

theorem runEnd_of_fails {s : Session} {line : Line} {e : Error}
    (h : s.execute line.text = .error e) (handler : Handler)
    (results : List String) (rest : List Line) :
    runEnd (line :: rest) (s.reporting handler results) =
      (some e, s.reporting (atLine handler s.path line) results) := by
  rw [runEnd, runLines, add_of_fails h]

theorem runEnd_of_quits {line : Line} (h : Quits line.text) (s : Session)
    (handler : Handler) (results : List String) (rest : List Line) :
    runEnd (line :: rest) (s.reporting handler results) =
      (none, { s with done := true }.reporting
        ((atLine handler s.path line).leaveLine s.path) results) := by
  obtain ⟨reports, hadd⟩ := add_of_runs (execute_of_quits h s) handler results
  rw [runEnd, runLines, hadd]
  simp [reporting]

theorem runEnd_of_runs {s s' : Session} {line : Line} {reply : Reply}
    (h : s.execute line.text = .ok (reply, s')) (hdone : s'.done = false)
    (handler : Handler) (results : List String) (rest : List Line) :
    runEnd (line :: rest) (s.reporting handler results) =
      runEnd rest
        (s'.reporting ((atLine handler s.path line).leaveLine s.path)
          (results ++ reply.output.toList)) := by
  obtain ⟨reports, hadd⟩ := add_of_runs h handler results
  rw [runEnd, runLines, hadd]
  simp [reporting, hdone, runEnd]

theorem RunsThrough.path_eq {s s' : Session} {front : List Line}
    {shown : List String} (h : s.RunsThrough front shown s') : s'.path = s.path := by
  induction h with
  | nil s => rfl
  | cons hline _ _ ih => exact ih.trans (path_of_execute hline)

/-- **What a run makes of lines that neither fail nor ask for the end**: it goes on
behind them with what they have shown and in the session that they have built, and
its trace points at no line of the file. -/
theorem RunsThrough.runEnd_append {s s' : Session} {front : List Line}
    {shown : List String} (h : s.RunsThrough front shown s')
    (hdone : s.done = false) {handler : Handler}
    (hidle : handler.trace.get? s.path = some .idle) (results : List String) :
    ∃ handler' : Handler, handler'.trace.get? s.path = some .idle ∧
      ∀ rest, runEnd (front ++ rest) (s.reporting handler results) =
        runEnd rest (s'.reporting handler' (results ++ shown)) := by
  induction h generalizing handler results with
  | nil s => exact ⟨handler, hidle, fun rest => by simp⟩
  | @cons s s₁ s' line front reply shown hline hquits _ ih =>
      have hpath := path_of_execute hline
      have hdone₁ : s₁.done = false := by rw [done_of_execute hline hquits, hdone]
      have hidle₁ : ((atLine handler s.path line).leaveLine s.path).trace.get?
          s₁.path = some .idle := by
        rw [hpath, get?_leaveLine]
      obtain ⟨handler', hidle', hrest⟩ :=
        ih hdone₁ hidle₁ (results ++ reply.output.toList)
      refine ⟨handler', hpath ▸ hidle', fun rest => ?_⟩
      rw [List.cons_append, runEnd_of_runs hline hdone₁, hrest, List.append_assoc]

/-! ## Runs of a source file -/

/-- What has become of a session after a run of its source file: the failure, if
there is one, the texts that have been shown, the environment, and what the trace
says about the file. -/
structure Stops (s : Session) (failure : Option Error) (shown : List String)
    (env : Environment) (place : Place) : Prop where
  failure : s.run.1 = failure
  results : s.run.2.2.results = shown
  environment : s.run.2.2.environment = env
  place : s.run.2.2.handler.trace.get? s.path = some place

theorem stops_of_runEnd {s s' : Session} {failure : Option Error}
    {handler : Handler} {results : List String} {place : Place}
    (hend : runEnd s.lines s = (failure, s'.reporting handler results))
    (hplace : handler.trace.get? s.path = some place) :
    s.Stops failure results s'.environment place := by
  have hlast : s.run.2.2 = s'.reporting handler results := congrArg Prod.snd hend
  refine ⟨congrArg Prod.fst hend, ?_, ?_, ?_⟩ <;> rw [hlast]
  · rfl
  · rfl
  · exact hplace

section

variable {s s' : Session} {front rest : List Line} {shown : List String}

/-- A run that comes to a line that fails stops there and points at the line. -/
theorem RunsThrough.stops_of_fails (h : s.RunsThrough front shown s')
    (hdone : s.done = false) (hidle : s.handler.trace.get? s.path = some .idle)
    {line : Line} (hlines : s.lines = front ++ line :: rest) {e : Error}
    (hfails : s'.execute line.text = .error e) :
    s.Stops (some e) (s.results ++ shown) s'.environment
      ⟨some line.text, some line.number⟩ := by
  obtain ⟨handler, -, hrest⟩ := h.runEnd_append hdone hidle s.results
  refine stops_of_runEnd ?_ (get?_atLine handler s.path line)
  rw [hlines, ← h.path_eq, ← runEnd_of_fails hfails handler _ rest, ← hrest]
  rfl

/-- A run that comes to its end points at no line of the file. -/
theorem RunsThrough.stops_of_quits (h : s.RunsThrough front shown s')
    (hdone : s.done = false) (hidle : s.handler.trace.get? s.path = some .idle)
    (hlines : s.lines = front ++ rest)
    (hquits : ∀ line ∈ rest.head?, Quits line.text) :
    s.Stops none (s.results ++ shown) s'.environment .idle := by
  obtain ⟨handler, hidle', hrest⟩ := h.runEnd_append hdone hidle s.results
  have hend : runEnd s.lines s =
      runEnd rest (s'.reporting handler (s.results ++ shown)) := by
    rw [hlines, ← hrest]
    rfl
  cases rest with
  | nil => exact stops_of_runEnd hend hidle'
  | cons line rest =>
      -- all that the last line changes is that the session is done
      rw [runEnd_of_quits (hquits line rfl), h.path_eq] at hend
      have hstops := stops_of_runEnd hend (get?_leaveLine _ s.path)
      exact hstops

end

/-- **A run of a source file stops at the first line that fails, and points at
it.**  Every well-encoded file can be taken up, unless its path is the name of the
source that is typed in.  If one of its lines fails in the session that the lines before it have
built, none of which fails or asks for the end, then the run fails as this line
does, has shown what those before it show, and leaves the environment that they
have built; the trace points at the line, which is a group of physical lines, by
the number of the first of them.  If there is no such line, the run does not fail,
has shown what the lines before the first that asks for the end show, or all
lines, and its trace points at no line of the file. -/
theorem run_stops_at_first_failure {files : Files} {path : String}
    {text : List Char} (hpath : '\x00' ∉ path.toList) (hsource : path ≠ shellPath)
    (hfile : files path = some (Text.Utf8.encode text)) (handler : Handler)
    (ceiling : Ceiling) :
    let physical := (Text.lines text).map String.ofList
    let lines := logicalLines physical
    let s : Session :=
      { path, interactive := false, ceiling, handler := handler.enterFile path, lines }
    readLines files path = .ok lines ∧
      start files handler path false ceiling = .ok s ∧
      (∀ {front line rest shown s' e}, lines = front ++ line :: rest →
        s.RunsThrough front shown s' → s'.execute line.text = .error e →
        s.Stops (some e) shown s'.environment
            ⟨some line.text, some line.number⟩ ∧
          ∃ before group after, MadeOf 1 physical front line before group after) ∧
      ((∀ front line rest shown s', lines = front ++ line :: rest →
          s.RunsThrough front shown s' → ∀ e, s'.execute line.text ≠ .error e) →
        ∃ front rest shown s', lines = front ++ rest ∧ s.RunsThrough front shown s' ∧
          (∀ line ∈ rest.head?, Quits line.text) ∧
          s.Stops none shown s'.environment .idle) := by
  intro physical lines s
  have hread : readLines files path = .ok lines := readLines_encode hpath hfile
  have hstart : start files handler path false ceiling = .ok s := by
    simp only [start, if_neg hsource, hread]
    rfl
  have hidle : s.handler.trace.get? s.path = some .idle := get?_leaveLine handler path
  refine ⟨hread, hstart, ?_, fun hnone => ?_⟩
  · intro front line rest shown s' e hlines hruns hfails
    exact ⟨hruns.stops_of_fails rfl hidle hlines hfails,
      (joinsTo_logicalLines physical).split hlines⟩
  · obtain ⟨front, rest, shown, s', hlines, hruns, hhead⟩ := s.exists_runsThrough lines
    have hquits : ∀ line ∈ rest.head?, Quits line.text := by
      intro line hline
      obtain ⟨rest', rfl⟩ := List.head?_eq_some_iff.1 hline
      refine (hhead line hline).resolve_right fun hfails => ?_
      obtain ⟨e, he⟩ := hfails
      exact hnone front line rest' shown s' hlines hruns e he
    exact ⟨front, rest, shown, s', hlines, hruns, hquits,
      hruns.stops_of_quits rfl hidle hlines hquits⟩

/-- The third line has an equals sign within parentheses.  It is made of three
physical lines, with a comment and a blank line in between. -/
theorem run_stops_at_first_failure_joined :
    let text := "I = \\x. x\n;; (\nI y\n  I (x ;; )\n\n  = y)\nI z\n".toList
    let files : Files := fun _ => some (Text.Utf8.encode text)
    let handler := Handler.new .plain true
    let env : Environment := Table.insert ∅ "I" (.abs "x" (.var "x"))
    let e := Error.grammar "I (x = y)" (.illegal ⟨5, '='⟩)
    '\x00' ∉ "i.lc".toList ∧ "i.lc" ≠ shellPath ∧
      ∃ s, start files handler "i.lc" false .usual = .ok s ∧
        s.Stops (some e) ["y"] env ⟨some "I (x = y)", some 4⟩ := by
  intro text files handler env e
  have hpath : '\x00' ∉ "i.lc".toList := by decide
  have hsource : "i.lc" ≠ shellPath := by decide
  have hfile : files "i.lc" = some (Text.Utf8.encode text) := rfl
  obtain ⟨-, hstart, hfails, -⟩ :=
    run_stops_at_first_failure hpath hsource hfile handler .usual
  have hlines : logicalLines ((Text.lines text).map String.ofList) =
      [⟨"I = \\x. x", 1⟩, ⟨"I y", 3⟩] ++ ⟨"I (x = y)", 4⟩ :: [⟨"I z", 7⟩] := by
    decide +kernel
  let s : Session :=
    { path := "i.lc", interactive := false, ceiling := .usual
      handler := handler.enterFile "i.lc"
      lines := logicalLines ((Text.lines text).map String.ofList) }
  let s' : Session := { s with environment := env }
  have hfirst : s.execute "I = \\x. x" = .ok ({}, s') := by
    have hcommand : Command.ofLine (trimmed (clean "I = \\x. x")) =
        .define "I = \\x. x" := by decide +kernel
    have hself : ¬ Environment.Reaches ∅ "I" (.abs "x" (.var "x")) :=
      Environment.not_reaches (by cbv)
    have hbind : s.bind "I = \\x. x" = .ok (.abs "x" (.var "x"), s') :=
      bind_eq_ok_iff.2 ⟨by decide, by decide, by decide +kernel, hself, rfl⟩
    rw [execute_of_ofLine (by decide +kernel) hcommand, perform, define, hbind]
    rfl
  have hsecond : s'.execute "I y" = .ok ({ output := some "y" }, s') := by
    have hcommand : Command.ofLine (trimmed (clean "I y")) = .evaluate "I y" := by
      decide +kernel
    have hterm : s'.evaluate "I y" = .ok (.var "y", []) := by decide +kernel
    rw [execute_of_ofLine (by decide +kernel) hcommand, perform, hterm]
    rfl
  have hthird : s'.execute "I (x = y)" = .error e := by
    have hcommand : Command.ofLine (trimmed (clean "I (x = y)")) =
        .evaluate "I (x = y)" := by decide +kernel
    have hterm : s'.evaluate "I (x = y)" = .error e := by decide +kernel
    rw [execute_of_ofLine (by decide +kernel) hcommand, perform, hterm]
    rfl
  have hquits : ¬ Quits "I = \\x. x" ∧ ¬ Quits "I y" := by decide
  have hrest := @RunsThrough.cons s' s' s' ⟨"I y", 3⟩ _ _ _ hsecond hquits.2 (.nil s')
  have hruns := @RunsThrough.cons s s' s' ⟨"I = \\x. x", 1⟩ _ _ _ hfirst hquits.1 hrest
  exact ⟨hpath, hsource, s, hstart, (hfails hlines hruns hthird).1⟩

end UntypedLambda.Session
