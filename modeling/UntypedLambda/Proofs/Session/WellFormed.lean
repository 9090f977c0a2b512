import UntypedLambda.Proofs.Environment.Dependency
import UntypedLambda.Proofs.Grammar.Names
import UntypedLambda.Proofs.Success
import UntypedLambda.Session.Basic

/-!
# Sessions keep their environments well formed

An environment is well formed if it gives terms to names that can be written,
if these terms hold such names only, and if no definition refers to itself,
directly or through others.

Of all that a session does to its environment there is little to know: one
call leaves it alone, empties it, or takes up one definition that has been
read and does not lead back to its own name (`Environment.Update`).  Each of
these keeps it well formed, so it is well formed after any calls, whether they
fail or not.

## Main results

* `bind_eq_ok_iff`: when a definition is taken up, and what becomes of the
  session then.
* `environment_after`: a call changes the environment by an update.
* `wellFormed_afterAll`: the environment of a session that starts without
  definitions is well formed after any calls.
-/

namespace UntypedLambda

namespace Session

/-! ## Taking up a definition -/

/-- The name on the left of the equals sign of a definition. -/
def definedName (statement : String) : Name :=
  trimmed (splitAtChar '=' statement).1

/-- The text on the right of the equals sign of a definition. -/
def definingText (statement : String) : String :=
  trimmed (splitAtChar '=' statement).2

/-- The name of a definition is recognized by its one token. -/
theorem validName_iff_isSingleName (statement : String) :
    Grammar.ValidName (definedName statement) ↔
      ∃ tokens, Grammar.tokenize (definedName statement) = .ok tokens ∧
        isSingleName tokens = true := by
  constructor
  · intro hvalid
    exact ⟨_, Grammar.tokenize_of_validName hvalid, by simp [isSingleName]⟩
  · intro h
    obtain ⟨tokens, htokens, hsingle⟩ := h
    unfold isSingleName at hsingle
    split at hsingle
    · next tok =>
        have hkind : tok.kind = .name := by simpa using hsingle
        exact Grammar.validName_of_tokenize_trim htokens hkind
    · cases hsingle

/-- **A definition is taken up exactly if** it has an equals sign with a valid
name before it and a term after it that does not lead back to the name; then it
is the only thing that changes. -/
theorem bind_eq_ok_iff {s s' : Session} {statement : String} {t : Term} :
    s.bind statement = .ok (t, s') ↔
      '=' ∈ statement.toList ∧ Grammar.ValidName (definedName statement) ∧
        Grammar.parse (definingText statement) = .ok t ∧
        ¬ s.environment.Reaches (definedName statement) t ∧
        s' = { s with
          environment := s.environment.insert (definedName statement) t } := by
  unfold Session.bind
  simp only [refuse_eq_ok, bind_eq_ok, parse, mapError_eq_ok, pure_eq_ok]
  constructor
  · intro h
    obtain ⟨hmark, -, tokens, htokens, hsingle, u, hparse, hreach, hpair⟩ := h
    cases hpair
    have hmark' : '=' ∈ statement.toList := by simpa using hmark
    have hvalid : Grammar.ValidName (definedName statement) :=
      (validName_iff_isSingleName statement).2
        ⟨tokens, htokens, by simpa using hsingle⟩
    rw [Environment.reaches_iff] at hreach
    exact ⟨hmark', hvalid, hparse, hreach, rfl⟩
  · intro h
    obtain ⟨hmark, hvalid, hparse, hreach, hafter⟩ := h
    obtain ⟨tokens, htokens, hsingle⟩ :=
      (validName_iff_isSingleName statement).1 hvalid
    rw [← Environment.reaches_iff] at hreach
    refine ⟨by simpa using hmark, hvalid.1, tokens, htokens, by simp [hsingle],
      t, hparse, hreach, ?_⟩
    rw [hafter]
    rfl

end Session

/-! ## Updates of an environment -/

namespace Environment

/-- The names of an environment can be written, its terms hold such names only,
and no definition refers to itself. -/
structure WellFormed (env : Environment) : Prop where
  reads : ∀ k ∈ env.keys, Grammar.parse k = .ok (.var k)
  valid : ∀ k t, env.get? k = some t → ∀ x ∈ t.names, Grammar.ValidName x
  acyclic : env.Acyclic

/-- What one call can do to an environment. -/
inductive Update (env : Environment) : Environment → Prop where
  | same : Update env env
  | cleared : Update env ∅
  | defined {name : Name} {t : Term} (hname : Grammar.ValidName name)
      (hnames : ∀ x ∈ t.names, Grammar.ValidName x)
      (hreach : ¬ env.Reaches name t) : Update env (env.insert name t)

theorem wellFormed_empty : WellFormed ∅ := by
  refine ⟨?_, ?_, acyclic_empty⟩
  · intro k hk
    cases hk
  · intro k t ht
    cases ht

/-- **An update keeps an environment well formed.** -/
theorem WellFormed.update {env env' : Environment} (hwf : env.WellFormed)
    (hupdate : env.Update env') : env'.WellFormed := by
  cases hupdate with
  | same => exact hwf
  | cleared => exact wellFormed_empty
  | @defined name t hname hnames hreach =>
      refine ⟨?_, ?_, acyclic_insert hwf.acyclic hreach⟩
      · intro k hk
        rw [Table.mem_keys_iff, Table.get?_insert] at hk
        by_cases hkname : name = k
        · rw [← hkname]
          exact (Grammar.parse_eq_var_iff name).2 hname
        · rw [if_neg hkname] at hk
          exact hwf.reads k ((Table.mem_keys_iff env k).2 hk)
      · intro k u hu
        rw [Table.get?_insert] at hu
        by_cases hkname : name = k
        · rw [if_pos hkname] at hu
          cases hu
          exact hnames
        · rw [if_neg hkname] at hu
          exact hwf.valid k u hu

end Environment

namespace Session

theorem update_of_bind {s s' : Session} {statement : String} {t : Term}
    (h : s.bind statement = .ok (t, s')) :
    s.environment.Update s'.environment := by
  obtain ⟨-, hname, hparse, hreach, rfl⟩ := bind_eq_ok_iff.1 h
  exact .defined hname (Grammar.names_parse hparse) hreach

theorem update_of_perform {s s' : Session} {command : Command} {reply : Reply}
    (h : s.perform command = .ok (reply, s')) :
    s.environment.Update s'.environment := by
  cases command with
  | quit | help =>
      cases h
      exact .same
  | clear =>
      cases h
      exact .cleared
  | define statement =>
      obtain ⟨⟨shown, s₁⟩, hdefine, hreply⟩ := map_eq_ok.1 h
      obtain ⟨⟨t, s₂⟩, hbind, hshown⟩ := map_eq_ok.1 hdefine
      cases hreply
      cases hshown
      exact update_of_bind hbind
  | evaluate expr | step expr | expand expr | outline expr | number expr =>
      obtain ⟨r, -, hreply⟩ := map_eq_ok.1 h
      cases hreply
      exact .same
  | unknown line word => cases h

theorem update_of_execute {s s' : Session} {line : String} {reply : Reply}
    (h : s.execute line = .ok (reply, s')) :
    s.environment.Update s'.environment := by
  unfold execute at h
  by_cases htext : trimmed (clean line) = ""
  · rw [if_pos htext] at h
    cases h
    exact .same
  · rw [if_neg htext] at h
    exact update_of_perform h

/-- A session that has noted a line for the reports. -/
def noted (s : Session) (line : String) (number : Option Int) : Session :=
  { s with handler := s.handler.enterLine s.path (some line) number }

theorem add_of_error {s : Session} {line : String} {number : Option Int}
    {e : Error} (h : (s.noted line number).execute line = .error e) :
    s.add line number = (.error e, s.noted line number) := by
  unfold noted at h ⊢
  simp only [add, h]

theorem add_of_ok {s s' : Session} {line : String} {number : Option Int}
    {reply : Reply} (h : (s.noted line number).execute line = .ok (reply, s')) :
    s.add line number =
      (.ok reply, { s' with handler := s'.handler.leaveLine s'.path }) := by
  unfold noted at h
  simp only [add, h]

theorem update_add (s : Session) (line : String) (number : Option Int) :
    s.environment.Update (s.add line number).2.environment := by
  cases hexecute : (s.noted line number).execute line with
  | error e =>
      rw [add_of_error hexecute]
      exact .same
  | ok r =>
      obtain ⟨reply, s'⟩ := r
      have hupdate := update_of_execute hexecute
      rw [add_of_ok hexecute]
      exact hupdate

/-! ## Calls -/

/-- A call of a session. -/
inductive Call where
  | execute (line : String)
  | add (line : String) (number : Option Int)
  | bind (statement : String)
  | parse (expr : String)
  | expand (expr : String)
  | step (expr : String)
  | evaluate (expr : String)
  | number (expr : String)
  | clear

/-- The session after an operation; a failure leaves it alone. -/
def settle {α : Type} (s : Session) : Except Error (α × Session) → Session
  | .ok (_, s') => s'
  | .error _ => s

/-- The session after a call, whether the call fails or not. -/
def after (s : Session) : Call → Session
  | .execute line => s.settle (s.execute line)
  | .add line number => (s.add line number).2
  | .bind statement => s.settle (s.bind statement)
  | .parse expr => s.settle ((Session.parse expr).map fun t => (t, s))
  | .expand expr => s.settle ((s.expand expr).map fun t => (t, s))
  | .step expr => s.settle ((s.step expr).map fun t => (t, s))
  | .evaluate expr => s.settle ((s.evaluate expr).map fun r => (r, s))
  | .number expr => s.settle ((s.number expr).map fun r => (r, s))
  | .clear => s.clear

/-- The session after some calls. -/
def afterAll (s : Session) (calls : List Call) : Session := calls.foldl after s

theorem after_bind {s s' : Session} {statement : String} {t : Term}
    (h : s.bind statement = .ok (t, s')) : s.after (.bind statement) = s' := by
  rw [after, h]
  rfl

theorem update_settle {α : Type} {s : Session}
    {result : Except Error (α × Session)}
    (h : ∀ a s', result = .ok (a, s') → s.environment.Update s'.environment) :
    s.environment.Update (s.settle result).environment := by
  cases result with
  | error e => exact .same
  | ok r => exact h r.1 r.2 rfl

theorem update_settle_map {α : Type} (s : Session) (result : Except Error α) :
    s.environment.Update
      (s.settle (result.map fun a => (a, s))).environment := by
  refine update_settle fun a s' h => ?_
  obtain ⟨b, -, hpair⟩ := map_eq_ok.1 h
  cases hpair
  exact .same

/-- **A call changes the environment by an update**, if at all. -/
theorem environment_after (s : Session) (call : Call) :
    s.environment.Update (s.after call).environment := by
  cases call <;> rw [after]
  case execute line => exact update_settle fun _ _ h => update_of_execute h
  case add line number => exact update_add s line number
  case bind statement => exact update_settle fun _ _ h => update_of_bind h
  case parse expr => exact update_settle_map s (Session.parse expr)
  case expand expr => exact update_settle_map s (s.expand expr)
  case step expr => exact update_settle_map s (s.step expr)
  case evaluate expr => exact update_settle_map s (s.evaluate expr)
  case number expr => exact update_settle_map s (s.number expr)
  case clear => exact .cleared

/-- Calls keep a well-formed environment well formed. -/
theorem wellFormed_after_calls {s : Session} (hwf : s.environment.WellFormed)
    (calls : List Call) : (s.afterAll calls).environment.WellFormed := by
  induction calls generalizing s with
  | nil => exact hwf
  | cons call calls ih => exact ih (hwf.update (environment_after s call))

theorem acyclic_afterAll {s : Session} (hstart : s.environment = ∅)
    (calls : List Call) : (s.afterAll calls).environment.Acyclic := by
  have hwf : s.environment.WellFormed := by
    rw [hstart]
    exact Environment.wellFormed_empty
  exact (wellFormed_after_calls hwf calls).acyclic

/-- **The environment of a session that starts without definitions is well
formed after any calls**, whether they fail or not. -/
theorem wellFormed_afterAll {s : Session} (hstart : s.environment = ∅)
    (calls : List Call) : (s.afterAll calls).environment.WellFormed := by
  have hwf : s.environment.WellFormed := by
    rw [hstart]
    exact Environment.wellFormed_empty
  exact wellFormed_after_calls hwf calls

/-- The second and the fourth call would close a cycle and fail. -/
theorem wellFormed_afterAll_cycle :
    let s := typedIn ⟨.plain, true, ∅⟩ .usual
    s.environment = ∅ ∧
      (s.afterAll [.bind "a = \\x. b", .execute "b = a a", .bind "b = c",
        .add "c = (a b)" (some 4), .evaluate "a", .execute ":clr", .bind "a = )"]
        ).environment.WellFormed :=
  ⟨rfl, wellFormed_afterAll rfl _⟩

/-! ## Runs of a source file -/

theorem wellFormed_runLines {s : Session} (hwf : s.environment.WellFormed)
    (lines : List Line) : (runLines lines s).2.2.environment.WellFormed := by
  induction lines generalizing s with
  | nil => exact hwf
  | cons line rest ih =>
      have hadd := hwf.update (update_add s line.text (some line.number))
      rw [runLines]
      split
      · next e s' hline =>
          rw [hline] at hadd
          exact hadd
      · next reply s' hline =>
          rw [hline] at hadd
          dsimp only
          split
          · exact hadd
          · exact ih hadd

/-- The sessions that calls and runs of the source file lead to. -/
inductive Reachable (start : Session) : Session → Prop where
  | start : Reachable start start
  | call {s : Session} (call : Call) :
      Reachable start s → Reachable start (s.after call)
  | run {s : Session} : Reachable start s → Reachable start s.run.2.2

theorem Reachable.wellFormed {start s : Session} (h : start.Reachable s)
    (hstart : start.environment = ∅) : s.environment.WellFormed := by
  induction h with
  | start =>
      rw [hstart]
      exact Environment.wellFormed_empty
  | call call _ ih => exact ih.update (environment_after _ call)
  | run _ ih => exact wellFormed_runLines ih _

end Session

end UntypedLambda
