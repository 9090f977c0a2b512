import UntypedLambda.Proofs.Session.WellFormed

/-!
# Failures and reports of a session

Everything that can be wrong with a line has a notice for the user, unless the
session lacks a ceiling, which is the fault of the program.  A line that runs
reports nothing but warnings.

Reports tell where they come from by the lines that are being worked on.  Between
two lines there is none (`Handler.Idle`): a line that runs is taken back from the
trace, and the notice of one that does not run clears it.

## Main results

* `fails_of_execute`: what can be wrong with a line.
* `ne_noCeiling_of_execute`, `Error.interruption_eq_notice`: what has a notice.
* `warnings_of_execute`: what a line that runs reports.
* `idle_forgetLines`, `Idle.leaveLine`: after either no line is being worked on.
-/

namespace UntypedLambda

open Diagnostic

namespace Diagnostic.Handler

/-! ## Lines that are being worked on -/

/-- No line of any source is being worked on. -/
def Idle (h : Handler) : Prop :=
  ∀ path place, h.trace.get? path = some place → place = .idle

theorem idle_new (style : Style) (fatal : Bool) : (new style fatal).Idle := by
  intro path place hplace
  cases hplace

theorem idle_forgetLines (h : Handler) : h.forgetLines.Idle := by
  intro path place hplace
  have hmem := (Table.get?_eq_some_iff _ path place).1 hplace
  obtain ⟨e, -, he⟩ := List.mem_map.1 hmem
  cases he
  rfl

theorem Idle.enterFile {h : Handler} (hidle : h.Idle) (path : String) :
    (h.enterFile path).Idle := by
  intro path' place hplace
  have hget : (if path = path' then some Place.idle else h.trace.get? path') =
      some place := by
    rw [← Table.get?_insert]
    exact hplace
  split at hget
  · cases hget
    rfl
  · exact hidle path' place hget

/-- Of the places that were idle before a line was noted only the one of its
source has to be cleared. -/
theorem Idle.leaveLine {h : Handler} (hidle : h.Idle) (path : String)
    (line : Option String) (number : Option Int) :
    ((h.enterLine path line number).leaveLine path).Idle := by
  intro path' place hplace
  have hget : (if path = path' then some Place.idle
      else (h.enterLine path line number).trace.get? path') = some place := by
    rw [← Table.get?_insert]
    exact hplace
  split at hget
  · cases hget
    rfl
  · next hne =>
      rw [enterLine, Table.get?_insert, if_neg hne] at hget
      exact hidle path' place hget

/-! ## Faults -/

/-- A fault of the program gets out. -/
theorem ending_settle_fault (h : Handler) (f : Fault) (inspect : Inspection) :
    (h.settle (some (.fault f)) inspect).1 ≠ .completed := by
  unfold settle
  dsimp only
  cases hnotice : faultNotice h.style f inspect with
  | error e => simp
  | ok n =>
      unfold throw
      cases h.fatal <;> simp

end Diagnostic.Handler

namespace Session

/-! ## What can be wrong with a line -/

/-- The ways in which a command fails: a text is not a term, a definition is not
taken up, nobody knows the command, or there is no ceiling to evaluate under. -/
inductive Fails (s : Session) : Command → Error → Prop
  | parse (command : Command) {expr : String} {e : Error}
      (h : Session.parse expr = .error e) : Fails s command e
  | define {statement : String} {e : Error} (h : s.bind statement = .error e) :
      Fails s (.define statement) e
  | unknown (line word : String) :
      Fails s (.unknown line word) (.unknownCommand line word)
  | noCeiling (command : Command) (h : s.ceiling = .missing) :
      Fails s command .noCeiling

theorem fails_of_expand {s : Session} {expr : String} {e : Error}
    (h : s.expand expr = .error e) (command : Command) : s.Fails command e :=
  .parse command (map_eq_error.1 h)

theorem fails_of_evaluate {s : Session} {expr : String} {e : Error}
    (h : s.evaluate expr = .error e) (command : Command) : s.Fails command e := by
  rcases bind_eq_error.1 h with hexpand | ⟨t, -, hreduce⟩
  · exact fails_of_expand hexpand command
  · cases hceiling : s.ceiling with
    | missing =>
        rw [hceiling] at hreduce
        cases hreduce
        exact .noCeiling command hceiling
    | usual | passes =>
        rw [hceiling] at hreduce
        cases hreduce

theorem fails_of_perform {s : Session} {command : Command} {e : Error}
    (h : s.perform command = .error e) : s.Fails command e := by
  cases command with
  | quit | help | clear => cases h
  | define statement => exact .define (map_eq_error.1 (map_eq_error.1 h))
  | evaluate expr => exact fails_of_evaluate (map_eq_error.1 h) _
  | number expr => exact fails_of_evaluate (map_eq_error.1 (map_eq_error.1 h)) _
  | step expr => exact fails_of_expand (map_eq_error.1 (map_eq_error.1 h)) _
  | expand expr => exact fails_of_expand (map_eq_error.1 h) _
  | outline expr => exact .parse _ (map_eq_error.1 h)
  | unknown line word =>
      cases h
      exact .unknown line word

/-- A line fails as the command that it asks for. -/
theorem fails_of_execute {s : Session} {line : String} {e : Error}
    (h : s.execute line = .error e) :
    s.Fails (.ofLine (trimmed (clean line))) e := by
  unfold execute at h
  dsimp only at h
  split at h
  · cases h
  · exact fails_of_perform h

theorem ne_noCeiling_of_bind {s : Session} {statement : String} {e : Error}
    (h : s.bind statement = .error e) : e ≠ .noCeiling := by
  rintro rfl
  unfold Session.bind at h
  simp only [refuse_eq_error, bind_eq_error, mapError_eq_error, mapError_eq_ok,
    parse, reduceCtorEq, and_false, exists_false, pure_ne_error, or_false] at h

theorem Fails.ne_noCeiling {s : Session} {command : Command} {e : Error}
    (h : s.Fails command e) (hceiling : s.ceiling ≠ .missing) : e ≠ .noCeiling := by
  cases h with
  | parse _ hparse =>
      obtain ⟨e₀, -, rfl⟩ := mapError_eq_error.1 hparse
      simp
  | define hbind => exact ne_noCeiling_of_bind hbind
  | unknown line word => simp
  | noCeiling _ hmissing => exact absurd hmissing hceiling

/-- A line is never at fault for a missing ceiling if there is one. -/
theorem ne_noCeiling_of_execute {s : Session} (hceiling : s.ceiling ≠ .missing)
    {line : String} {e : Error} (h : s.execute line = .error e) :
    e ≠ .noCeiling :=
  (fails_of_execute h).ne_noCeiling hceiling

/-- Everything else has a notice for the user. -/
theorem Error.interruption_eq_notice {e : Error} (h : e ≠ .noCeiling) :
    ∃ n, e.interruption = .notice n := by
  cases e with
  | noCeiling => exact absurd rfl h
  | _ => exact ⟨_, rfl⟩

/-! ## What a line that runs reports -/

theorem warnings_of_evaluate {s : Session} {expr : String}
    {r : Term × List Report} (h : s.evaluate expr = .ok r) :
    ∀ report ∈ r.2, ∃ n, report = s.handler.warn n := by
  obtain ⟨t, -, hreduce⟩ := bind_eq_ok.1 h
  split at hreduce
  · cases hreduce
  · cases hreduce
    intro report hmem
    dsimp only at hmem
    split at hmem
    · cases hmem
    · exact ⟨_, List.mem_singleton.1 hmem⟩

/-- A line that runs reports nothing but warnings. -/
theorem warnings_of_execute {s s' : Session} {line : String} {reply : Reply}
    (h : s.execute line = .ok (reply, s')) :
    ∀ report ∈ reply.reports, ∃ n, report = s.handler.warn n := by
  have hnone : ∀ report ∈ ([] : List Report), ∃ n, report = s.handler.warn n := by
    simp
  unfold execute at h
  dsimp only at h
  split at h
  · cases h
    exact hnone
  · cases hcommand : Command.ofLine (trimmed (clean line)) <;>
      rw [hcommand] at h
    case quit | help | clear =>
      cases h
      exact hnone
    case unknown => cases h
    case evaluate expr =>
      obtain ⟨r, hr, hreply⟩ := map_eq_ok.1 h
      cases hreply
      exact warnings_of_evaluate hr
    case number expr =>
      obtain ⟨shown, hshown, hreply⟩ := map_eq_ok.1 h
      obtain ⟨r, hr, rfl⟩ := map_eq_ok.1 hshown
      cases hreply
      exact warnings_of_evaluate hr
    all_goals
      obtain ⟨_, -, hreply⟩ := map_eq_ok.1 h
      cases hreply
      exact hnone

end Session

end UntypedLambda
