import UntypedLambda.Proofs.Session.Line
import UntypedLambda.Shell

/-!
# What a shell does with a line

A line is passed on or answered by the shell itself.  When it is passed on, it
is joined to the line before it if that is unfinished; if the outcome is
unfinished too, it is kept, and otherwise the session runs it.

## Main results

* `passOn_of_kept`, `passOn_of_handed`: a line that is passed on is kept or run
  by the session.
* `keepsUnfinished_passOn`: what is kept is unfinished.
* `promptTells_keep`, `promptTells_of_new`: the prompt tells whether something is kept.
* `response_accept`: a line is answered or passed on.
-/

namespace UntypedLambda.Shell

open Diagnostic Session

/-- The unfinished line, which is empty if there is none. -/
def pendingText (sh : Shell) : String := sh.pending.getD ""

/-- The line that the session is to run when a line is passed on, if the line is
not kept. -/
def handed? (sh : Shell) (line : String) : Option String :=
  let text := continueLine sh.pending line
  if leavesOpen text then none else some text

/-- The turn in which an unfinished line is kept. -/
def keep (sh : Shell) (text : String) : Turn :=
  ⟨false, [], .completed,
    { sh with pending := some text, prompt := pendingPrompt,
              lineNumber := sh.lineNumber + 1 }⟩

/-- The turn in which the session has run a line with this number. -/
def conclude (number : Nat) : Except Error Reply × Session → Turn
  | (.ok reply, s) =>
      let shown := reply.output.toList.map fun out => Output.text (out ++ "\n")
      ⟨s.done, reply.reports.map .report ++ shown, .completed, ⟨s, none, newPrompt, number⟩⟩
  | (.error e, s) =>
      let (ending, reports, h) := s.handler.settle (some e.interruption)
      ⟨s.done, reports.map .report, ending, ⟨{ s with handler := h }, none, newPrompt, number⟩⟩

/-- The turn in which the session runs a line. -/
def handOver (sh : Shell) (text : String) : Turn :=
  conclude (sh.lineNumber + 1)
    (sh.session.add text (some (sh.lineNumber + 1 : Nat)))

theorem handed?_eq_none_iff (sh : Shell) (line : String) :
    sh.handed? line = none ↔ leavesOpen (continueLine sh.pending line) = true := by
  unfold handed?
  simp

theorem handed?_eq_some_iff (sh : Shell) (line text : String) :
    sh.handed? line = some text ↔
      leavesOpen (continueLine sh.pending line) = false ∧
        continueLine sh.pending line = text := by
  unfold handed?
  simp

section

variable {sh : Shell} {line : String}

/-- A line that is not handed to the session is kept. -/
theorem passOn_of_kept (h : sh.handed? line = none) :
    sh.passOn line = sh.keep (continueLine sh.pending line) := by
  have hopen := (sh.handed?_eq_none_iff line).1 h
  simp only [passOn, if_pos hopen]
  rfl

/-- A line that is handed to the session is run by it. -/
theorem passOn_of_handed {text : String} (h : sh.handed? line = some text) :
    sh.passOn line = sh.handOver text := by
  obtain ⟨hclosed, rfl⟩ := (sh.handed?_eq_some_iff line text).1 h
  simp only [passOn, hclosed, Bool.false_eq_true, if_false]
  unfold handOver conclude
  cases hadd : sh.session.add (continueLine sh.pending line)
      (some (sh.lineNumber + 1 : Nat)) with
  | mk result s => cases result <;> rfl

/-- A clean line that leaves nothing open is run as it is, if nothing is kept. -/
theorem passOn_of_clean (hpending : sh.pending = none) (hclean : clean line = line)
    (hclosed : leavesOpen line = false) : sh.passOn line = sh.handOver line := by
  refine passOn_of_handed ((sh.handed?_eq_some_iff line line).2 ?_)
  have hwhole : continueLine sh.pending line = line := by
    rw [hpending, continueLine, hclean]
  exact ⟨by rw [hwhole, hclosed], hwhole⟩

end

/-! ## What is kept -/

theorem pending_conclude (number : Nat) (r : Except Error Reply × Session) :
    (conclude number r).shell.pending = none := by
  obtain ⟨result, s⟩ := r
  cases result <;> rfl

theorem pending_passOn (sh : Shell) (line : String) :
    (sh.passOn line).shell.pending =
      if leavesOpen (continueLine sh.pending line) then
        some (continueLine sh.pending line) else none := by
  cases hhanded : sh.handed? line with
  | none =>
      rw [if_pos ((sh.handed?_eq_none_iff line).1 hhanded), passOn_of_kept hhanded]
      rfl
  | some text =>
      obtain ⟨hclosed, -⟩ := (sh.handed?_eq_some_iff line text).1 hhanded
      rw [hclosed, passOn_of_handed hhanded, handOver, pending_conclude,
        if_neg Bool.false_ne_true]

/-- The prompt tells whether a line is kept. -/
def PromptTells (sh : Shell) : Prop := sh.prompt = pendingPrompt ↔ sh.pending ≠ none

theorem promptTells_of_new {sh : Shell} (hprompt : sh.prompt = newPrompt)
    (hpending : sh.pending = none) : sh.PromptTells := by
  unfold PromptTells
  rw [hprompt, hpending]
  decide

theorem promptTells_keep (sh : Shell) (text : String) : (sh.keep text).shell.PromptTells :=
  iff_of_true rfl (Option.some_ne_none text)

/-- What a shell keeps is an unfinished line. -/
def KeepsUnfinished (sh : Shell) : Prop := ∀ text ∈ sh.pending, Unfinished text

theorem keepsUnfinished_of_none {sh : Shell} (h : sh.pending = none) :
    sh.KeepsUnfinished := by
  intro text hmem
  rw [h] at hmem
  cases hmem

theorem keepsUnfinished_passOn (sh : Shell) (line : String) :
    (sh.passOn line).shell.KeepsUnfinished := by
  intro text hmem
  rw [pending_passOn] at hmem
  split at hmem
  · next hopen =>
      cases hmem
      exact ⟨clean_continueLine _ _, hopen⟩
  · cases hmem

theorem KeepsUnfinished.pendingText_eq_empty_iff {sh : Shell}
    (h : sh.KeepsUnfinished) : sh.pendingText = "" ↔ sh.pending = none := by
  unfold pendingText
  cases hpending : sh.pending with
  | none => simp
  | some text =>
      have htext := (h text hpending).ne_empty
      have hne : text ≠ "" := by
        rintro rfl
        exact htext (by decide)
      simp [hne]

/-! ## Answers -/

/-- What a turn can be: an answer of the shell, or what comes of passing a line
on. -/
inductive Response (sh : Shell) : Turn → Prop where
  | answer (stop : Bool) (text : String) : Response sh (sh.say stop text)
  | pass (line : String) : Response sh (sh.passOn line)

theorem response_orPassOn (sh : Shell) (word arg : String) {alone : Turn}
    (h : sh.Response alone) : sh.Response (sh.orPassOn word arg alone) := by
  unfold orPassOn
  split
  · exact h
  · exact .pass _

theorem response_dispatch (sh : Shell) (line : String) :
    sh.Response (sh.dispatch line) := by
  unfold dispatch
  split
  · exact sh.response_orPassOn _ _ (.answer _ _)
  · exact sh.response_orPassOn _ _ (.answer _ _)
  · exact sh.response_orPassOn _ _ (.answer _ _)
  · exact .pass _

/-- **A line is answered or passed on**, perhaps not quite as it was typed in. -/
theorem response_accept (sh : Shell) (line : String) :
    sh.Response (sh.accept line) := by
  unfold accept
  dsimp only
  split
  · exact .answer _ _
  · exact sh.response_dispatch _
  · exact .pass _
  · exact sh.response_dispatch _

end UntypedLambda.Shell
