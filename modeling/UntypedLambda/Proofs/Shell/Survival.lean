import UntypedLambda.Proofs.Session.Atomicity
import UntypedLambda.Proofs.Session.Reports
import UntypedLambda.Proofs.Shell.Turn

/-!
# The shell survives every line

Whatever is typed in, a shell goes on.  A line that cannot be run is answered
with an error, after which everything is as before and nothing is pending; no
failure gets out of the shell and none ends the program.  Three things come
together for this: the handler of a session for typed-in lines ends nothing,
everything that can be wrong with a line has a notice for the user unless the
session lacks a ceiling, and a session that fails has changed nothing.

Between lines a shell is `Ready` for the next one.  Every line finds it ready
and leaves it ready (`survives_accept`), and so do any lines.

## Main results

* `survives_accept`: one line.
* `Ready.loop_completed`: all lines until the shell is told to stop.
* `survives_every_line`: any line after any other lines.
-/

namespace UntypedLambda.Shell

open Diagnostic Session

/-! ## One line -/

/-- A shell between two lines: no line is being worked on, notices end nothing,
terms can be evaluated, what is kept is unfinished, the prompt tells whether something
is, and the definitions are well formed. -/
structure Ready (sh : Shell) : Prop where
  lenient : sh.session.handler.fatal = false
  idle : sh.session.handler.Idle
  ceiling : sh.session.ceiling ≠ .missing
  keeps : sh.KeepsUnfinished
  prompts : sh.PromptTells
  wellFormed : sh.session.environment.WellFormed

/-- A turn after which the shell can go on, and in which an error is reported only
if everything is as before and nothing is kept. -/
structure Survives (sh : Shell) (turn : Turn) : Prop where
  completed : turn.ending = .completed
  ready : turn.shell.Ready
  unharmed : ∀ trace n, .report (.error trace n) ∈ turn.output →
    turn.shell.session.environment = sh.session.environment ∧
      turn.shell.session.done = sh.session.done ∧ turn.shell.pending = none

theorem survives_say {sh : Shell} (h : sh.Ready) (stop : Bool) (text : String) :
    sh.Survives (sh.say stop text) := by
  refine ⟨rfl, h, fun trace n hmem => ?_⟩
  unfold say at hmem
  dsimp only at hmem
  split at hmem
  · cases hmem
  · simp at hmem

theorem survives_keep {sh : Shell} (h : sh.Ready) {text : String}
    (htext : Unfinished text) : sh.Survives (sh.keep text) := by
  refine ⟨rfl, ⟨h.lenient, h.idle, h.ceiling, ?_, sh.promptTells_keep text, h.wellFormed⟩,
    by simp [keep]⟩
  rintro text' ⟨⟩
  exact htext

/-- A notice ends nothing and clears the trace. -/
theorem conclude_notice {s : Session} (hlenient : s.handler.fatal = false)
    {e : Error} {n : Notice} (hnotice : e.interruption = .notice n)
    (number : Nat) :
    conclude number (.error e, s) =
      ⟨s.done, [.report (.error s.handler.trace.entries n)], .completed,
        ⟨{ s with handler := s.handler.forgetLines }, none, newPrompt, number⟩⟩ := by
  simp only [conclude, hnotice, Handler.settle, Handler.throw, hlenient,
    Bool.false_eq_true, if_false, List.map_cons, List.map_nil]

/-- Replies write nothing but warnings and texts. -/
theorem not_error_mem_conclude {s : Session} {reply : Reply} {number : Nat}
    (hwarnings : ∀ report ∈ reply.reports, ∃ h n, report = Handler.warn h n)
    (trace : List (String × Place)) (n : Notice) :
    Output.report (.error trace n) ∉ (conclude number (.ok reply, s)).output := by
  intro hmem
  rcases List.mem_append.1 hmem with hreport | hshown
  · obtain ⟨report, hmem, heq⟩ := List.mem_map.1 hreport
    obtain ⟨h, n', rfl⟩ := hwarnings report hmem
    cases heq
  · obtain ⟨out, -, heq⟩ := List.mem_map.1 hshown
    cases heq

theorem survives_handOver {sh : Shell} (h : sh.Ready) (text : String) :
    sh.Survives (sh.handOver text) := by
  unfold handOver
  generalize sh.lineNumber + 1 = number
  have hwf := h.wellFormed.update (update_add sh.session text (some number))
  have hceiling : (sh.session.noted text (some number)).ceiling ≠ .missing :=
    h.ceiling
  have hlenient : (sh.session.noted text (some number)).handler.fatal = false :=
    h.lenient
  cases hexecute : (sh.session.noted text (some number)).execute text with
  | error e =>
      obtain ⟨n, hnotice⟩ :=
        Error.interruption_eq_notice (ne_noCeiling_of_execute hceiling hexecute)
      rw [add_of_error hexecute] at hwf ⊢
      rw [conclude_notice hlenient hnotice]
      exact ⟨rfl, ⟨hlenient, Handler.idle_forgetLines _, hceiling,
        keepsUnfinished_of_none rfl, promptTells_of_new rfl rfl, hwf⟩,
        fun _ _ _ => ⟨rfl, rfl, rfl⟩⟩
  | ok r =>
      obtain ⟨reply, s'⟩ := r
      have hframe := (effect_of_execute hexecute).frame
      have hwarnings := warnings_of_execute hexecute
      rw [add_of_ok hexecute] at hwf ⊢
      have hidle : (s'.handler.leaveLine s'.path).Idle := by
        rw [hframe]
        exact h.idle.leaveLine _ _ _
      refine ⟨rfl, ⟨?_, hidle, ?_, keepsUnfinished_of_none rfl, promptTells_of_new rfl rfl, hwf⟩,
        ?_⟩
      · show s'.handler.fatal = false
        rw [hframe]
        exact hlenient
      · show s'.ceiling ≠ .missing
        rw [hframe]
        exact hceiling
      · intro trace n hmem
        refine absurd hmem (not_error_mem_conclude (fun report hreport => ?_) trace n)
        exact ⟨_, hwarnings report hreport⟩

theorem survives_passOn {sh : Shell} (h : sh.Ready) (line : String) :
    sh.Survives (sh.passOn line) := by
  cases hhanded : sh.handed? line with
  | none =>
      have hopen := (sh.handed?_eq_none_iff line).1 hhanded
      rw [passOn_of_kept hhanded]
      exact survives_keep h ⟨clean_continueLine _ _, hopen⟩
  | some text =>
      rw [passOn_of_handed hhanded]
      exact survives_handOver h text

/-- **A shell that is ready survives a line.** -/
theorem survives_accept {sh : Shell} (h : sh.Ready) (line : String) :
    sh.Survives (sh.accept line) := by
  have hresponse := sh.response_accept line
  generalize sh.accept line = turn at hresponse
  cases hresponse with
  | answer stop text => exact survives_say h stop text
  | pass line => exact survives_passOn h line

/-! ## Any lines -/

/-- A shell after some lines. -/
def acceptAll (sh : Shell) : List String → Shell
  | [] => sh
  | line :: rest => acceptAll (sh.accept line).shell rest

theorem Ready.acceptAll {sh : Shell} (h : sh.Ready) (lines : List String) :
    (sh.acceptAll lines).Ready := by
  induction lines generalizing sh with
  | nil => exact h
  | cons line rest ih =>
      rw [Shell.acceptAll]
      exact ih (survives_accept h line).ready

/-- A shell that is ready reads lines until it is told to stop, and nothing else
ends it. -/
theorem Ready.loop_completed {sh : Shell} (h : sh.Ready) (lines : List String) :
    (sh.loop lines).2 = .completed := by
  induction lines generalizing sh with
  | nil =>
      have hcompleted := (survives_accept h "EOF").completed
      rw [loop]
      dsimp only
      rw [hcompleted]
      rfl
  | cons line rest ih =>
      have hturn := survives_accept h line
      rw [loop]
      dsimp only
      generalize sh.accept line = turn at hturn ⊢
      rw [hturn.completed]
      cases turn.stop with
      | false => exact ih hturn.ready
      | true => rfl

theorem ready_of_handler {handler : Handler} (hidle : handler.Idle) (path : String)
    (limit : Option Int) (lines : List Line) :
    Ready { session := {
      path, interactive := true, ceiling := .ofOption limit
      handler := takeUp handler path true, lines } } := by
  refine ⟨rfl, hidle.enterFile path, ?_, keepsUnfinished_of_none rfl,
    promptTells_of_new rfl rfl, Environment.wellFormed_empty⟩
  cases limit <;> simp [Ceiling.ofOption]

/-- A new shell around a new session for typed-in lines is ready. -/
theorem ready_of_start {files : Files} {handler : Handler} {path : String}
    {limit : Option Int} {s : Session} (hidle : handler.Idle)
    (hstart : Session.start files handler path true (.ofOption limit) = .ok s) :
    Ready { session := s } := by
  unfold Session.start at hstart
  dsimp only at hstart
  split at hstart
  · cases hstart
    exact ready_of_handler hidle shellPath limit []
  · split at hstart
    · cases hstart
    · cases hstart
      exact ready_of_handler hidle path limit _

/-- What can be relied on between two lines: unfolding definitions ends, no line is
being worked on, and the prompt tells whether an unfinished line is kept. -/
structure Consistent (sh : Shell) : Prop where
  acyclic : sh.session.environment.Acyclic
  idle : ∀ path place, sh.session.handler.trace.get? path = some place →
    place.line = none
  prompt : sh.prompt = pendingPrompt ↔ sh.pendingText ≠ ""
  opens : sh.pendingText ≠ "" →
    sh.pendingText.toList.count ')' < sh.pendingText.toList.count '('
  noComment : sh.pendingText ≠ "" → ¬ [';', ';'] <:+: sh.pendingText.toList
  solidEnd : sh.pendingText ≠ "" →
    ∀ c, sh.pendingText.toList.getLast? = some c → Text.isBlank c = false

theorem KeepsUnfinished.unfinished_pendingText {sh : Shell}
    (h : sh.KeepsUnfinished) (hne : sh.pendingText ≠ "") :
    Unfinished sh.pendingText := by
  rw [ne_eq, h.pendingText_eq_empty_iff] at hne
  obtain ⟨text, hpending⟩ := Option.ne_none_iff_exists'.1 hne
  rw [pendingText, hpending]
  exact h text hpending

theorem Ready.consistent {sh : Shell} (h : sh.Ready) : sh.Consistent := by
  have hunfinished := h.keeps.unfinished_pendingText
  refine ⟨h.wellFormed.acyclic, fun path place hplace => ?_, ?_, fun hne => ?_,
    fun hne => ?_, fun hne => ?_⟩
  · rw [h.idle path place hplace]
    rfl
  · rw [ne_eq, h.keeps.pendingText_eq_empty_iff]
    exact h.prompts
  · simpa [leavesOpen, leavesOpenChars] using (hunfinished hne).leavesOpen
  · exact (hunfinished hne).clean.noComment
  · exact (hunfinished hne).clean.solidEnd

/-- **A shell survives any line after any other lines.**  It goes on and is left
consistent, and if the line is answered with an error, then definitions and the
end of the session are as before and nothing is pending. -/
theorem survives_every_line {files : Files} {handler : Handler} {path : String}
    {limit : Option Int} {s : Session} (hidle : handler.Idle)
    (hstart : Session.start files handler path true (.ofOption limit) = .ok s)
    (front : List String) (line : String) :
    let before := acceptAll { session := s } front
    let turn := before.accept line
    turn.ending = .completed ∧ turn.shell.Consistent ∧
      ∀ trace notice, .report (.error trace notice) ∈ turn.output →
        turn.shell.session.environment = before.session.environment ∧
          turn.shell.session.done = before.session.done ∧
          turn.shell.pendingText = "" := by
  intro before turn
  have hbefore : before.Ready := (ready_of_start hidle hstart).acceptAll front
  have hturn : before.Survives turn := survives_accept hbefore line
  refine ⟨hturn.completed, hturn.ready.consistent, fun trace notice hmem => ?_⟩
  obtain ⟨henvironment, hdone, hpending⟩ := hturn.unharmed trace notice hmem
  exact ⟨henvironment, hdone,
    hturn.ready.keeps.pendingText_eq_empty_iff.2 hpending⟩

/-- A command that nobody knows, typed in over two lines, with lines in between
that leave it pending. -/
theorem survives_every_line_unknown :
    let s := typedIn (Handler.new .plain true) .usual
    let before := acceptAll { session := s } [":what (", "help", " ;; comment"]
    let turn := before.accept "is this)"
    before.prompt = pendingPrompt ∧
      (∃ trace notice, .report (.error trace notice) ∈ turn.output) ∧
      turn.ending = .completed ∧ turn.shell.Consistent ∧
      turn.shell.session.environment = before.session.environment ∧
      turn.shell.session.done = before.session.done ∧
      turn.shell.pendingText = "" := by
  intro s before turn
  have hstart : Session.start (fun _ => none) (Handler.new .plain true) shellPath
      true (.ofOption none) = .ok s := rfl
  have hsurvives := survives_every_line (Handler.idle_new .plain true) hstart
    [":what (", "help", " ;; comment"] "is this)"
  have hprompt : before.prompt = pendingPrompt := by decide +kernel
  have hreported : (turn.output.any fun out => match out with
      | .report (.error _ _) => true
      | _ => false) = true := by decide +kernel
  -- from here on it does not matter which turn this is
  have hbefore : before =
      acceptAll { session := s } [":what (", "help", " ;; comment"] := rfl
  have hturn : turn = before.accept "is this)" := rfl
  clear_value turn before
  dsimp only at hsurvives
  rw [← hbefore, ← hturn] at hsurvives
  obtain ⟨hcompleted, hconsistent, hunharmed⟩ := hsurvives
  obtain ⟨out, hout, herror⟩ := List.any_eq_true.1 hreported
  split at herror
  · next trace notice =>
      exact ⟨hprompt, ⟨trace, notice, hout⟩, hcompleted, hconsistent,
        hunharmed trace notice hout⟩
  · cases herror

end UntypedLambda.Shell
