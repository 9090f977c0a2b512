import UntypedLambda.Proofs.Session.WellFormed

/-!
# Operations take effect as a whole or not at all

The operations of a session give either an error or a result with the session
after it.  Here they are written as they would be carried out on a session that
is changed in place (`InPlace`), where an operation that fails leaves whatever
it has changed by then.  The two agree: everything that can fail is done before
anything is changed, so an operation that fails in place leaves the session as
it found it (`outcome`), but for the note that `add` makes for the reports.

What a line that runs has changed can be told from the line.  A definition
changes the entry of its one name and, if the name is new, puts it last; `:clr`
empties the environment; `:q` ends the session; nothing else changes anything.

## Main results

* `run_bindInPlace`, `run_executeInPlace`, `run_addInPlace`: the operations in
  place come to the operations of the session.
* `session_of_perform`: the sessions that a command can lead to.
* `effect_of_execute`: what a line that runs changes.
* `operations_atomic`: all of it.
-/

namespace UntypedLambda

namespace Table

variable {κ ν : Type} [DecidableEq κ]

/-- Two tables differ at most at one key, which is overwritten where it stands
or comes last. -/
structure DiffersOnlyAt (k : κ) (t t' : Table κ ν) : Prop where
  others : ∀ k', k ≠ k' → t'.get? k' = t.get? k'
  present : k ∈ t.keys → t'.keys = t.keys
  absent : k ∉ t.keys → t'.keys = t.keys ++ [k]

theorem differsOnlyAt_insert (t : Table κ ν) (k : κ) (v : ν) :
    DiffersOnlyAt k t (t.insert k v) := by
  refine ⟨?_, t.keys_insert_of_mem v, t.keys_insert_of_not_mem v⟩
  intro k' hk
  rw [get?_insert, if_neg hk]

end Table

namespace Session

/-! ## Operations in place -/

/-- An operation on a session that is changed in place.  If it fails, what it
has changed stays changed. -/
abbrev InPlace (α : Type) := EStateM Error Session α

/-- Take up a definition in place. -/
def bindInPlace (statement : String) : InPlace Term := do
  if !statement.toList.contains '=' then throw (.noEquals statement)
  let (left, right) := splitAtChar '=' statement
  let name := trimmed left
  if name = "" then throw (.noName statement)
  let tokens ← ofExcept
    ((Grammar.tokenize name).mapError fun e => .grammar name (.illegal e))
  if !isSingleName tokens then throw (.badName statement)
  let t ← ofExcept (parse (trimmed right))
  if (← get).environment.reaches name t then throw (.recursive statement)
  modify fun s => { s with environment := s.environment.insert name t }
  return t

/-- Take up a definition in place, and show it if the lines are typed in. -/
def defineInPlace (statement : String) : InPlace (Option String) := do
  let t ← bindInPlace statement
  if (← get).interactive then
    return some (trimmed (splitAtChar '=' statement).1 ++ " = " ++ t.text)
  return none

/-- Carry out a command in place. -/
def performInPlace : Command → InPlace Reply
  | .quit => do
      modify fun s => { s with done := true }
      return {}
  | .help => return { output := some helpText }
  | .clear => do
      modify clear
      return {}
  | .define statement => return { output := ← defineInPlace statement }
  | .evaluate expr => do
      let (t, reports) ← ofExcept ((← get).evaluate expr)
      return { output := some t.text, reports }
  | .step expr => do
      let t ← ofExcept ((← get).step expr)
      return { output := some t.text }
  | .expand expr => do
      let t ← ofExcept ((← get).expand expr)
      return { output := some t.text }
  | .outline expr => do
      let t ← ofExcept (parse expr)
      return { output := some t.outline.pretty }
  | .number expr => do
      let (shown, reports) ← ofExcept ((← get).number expr)
      return { output := some shown, reports }
  | .unknown line word => throw (.unknownCommand line word)

/-- Run a line in place. -/
def executeInPlace (line : String) : InPlace Reply := do
  let text := trimmed (clean line)
  if text = "" then return {}
  performInPlace (.ofLine text)

/-- Run a line in place after noting it for the reports. -/
def addInPlace (line : String) (number : Option Int) : InPlace Reply := do
  modify (·.noted line number)
  let reply ← executeInPlace line
  modify fun s => { s with handler := s.handler.leaveLine s.path }
  return reply

/-- What an operation in place comes to if it leaves the session alone when it
fails. -/
def outcome {α : Type} (s : Session) :
    Except Error (α × Session) → EStateM.Result Error Session α
  | .ok (a, s') => .ok a s'
  | .error e => .error e s

/-! ## In place and as a whole -/

section

variable {α β γ δ : Type} {s : Session}

/-- A check refuses on both sides or on neither. -/
theorem run_refuse {c : Prop} [Decidable c] {e : Error} {f : γ → InPlace α}
    {x : InPlace α} {g : δ → Except Error (α × Session)}
    {y : Except Error (α × Session)} (h : x.run s = s.outcome y) :
    (if c then throw e >>= f else x).run s =
      s.outcome (if c then throw e >>= g else y) := by
  by_cases hc : c
  · rw [if_pos hc, if_pos hc]
    rfl
  · rw [if_neg hc, if_neg hc, h]

theorem run_ofExcept {r : Except Error γ} {f : γ → InPlace α}
    {g : γ → Except Error (α × Session)}
    (h : ∀ a, (f a).run s = s.outcome (g a)) :
    (ofExcept r >>= f).run s = s.outcome (r >>= g) := by
  cases r with
  | error e => rfl
  | ok a => exact h a

/-- What only looks at the session leaves it alone. -/
theorem run_look {r : Except Error γ} {f : γ → InPlace α} {g : γ → α × Session}
    (h : ∀ a, (f a).run s = s.outcome (.ok (g a))) :
    (ofExcept r >>= f).run s = s.outcome (r.map g) := by
  cases r with
  | error e => rfl
  | ok a => exact h a

/-- After the last operation that changes the session nothing can fail. -/
theorem run_then {op : InPlace α} {x : Except Error (α × Session)}
    {f : α → InPlace β} {g : α × Session → β × Session}
    (hop : op.run s = s.outcome x)
    (hrest : ∀ a s', x = .ok (a, s') →
      (f a).run s' = .ok (g (a, s')).1 (g (a, s')).2) :
    (op >>= f).run s = s.outcome (x.map g) := by
  rw [EStateM.run_bind, hop]
  cases x with
  | error e => rfl
  | ok r => exact hrest r.1 r.2 rfl

end

theorem run_bindInPlace (s : Session) (statement : String) :
    (bindInPlace statement).run s = s.outcome (s.bind statement) := by
  unfold bindInPlace Session.bind
  refine run_refuse (run_refuse (run_ofExcept fun tokens =>
    run_refuse (run_ofExcept fun t => ?_)))
  rw [EStateM.run_bind, EStateM.run_get]
  exact run_refuse rfl

theorem run_defineInPlace (s : Session) (statement : String) :
    (defineInPlace statement).run s = s.outcome (s.define statement) := by
  refine run_then (run_bindInPlace s statement) fun t s' hbind => ?_
  obtain ⟨-, -, -, -, rfl⟩ := bind_eq_ok_iff.1 hbind
  rw [EStateM.run_bind, EStateM.run_get]
  cases s.interactive <;> rfl

theorem run_performInPlace (s : Session) (command : Command) :
    (performInPlace command).run s = s.outcome (s.perform command) := by
  cases command with
  | quit | help | clear | unknown => rfl
  | define statement =>
      exact run_then (run_defineInPlace s statement) fun _ _ _ => rfl
  | outline expr => exact run_look fun _ => rfl
  | evaluate expr | step expr | expand expr | number expr =>
      rw [performInPlace, EStateM.run_bind, EStateM.run_get]
      exact run_look fun _ => rfl

theorem run_executeInPlace (s : Session) (line : String) :
    (executeInPlace line).run s = s.outcome (s.execute line) := by
  unfold executeInPlace execute
  by_cases htext : trimmed (clean line) = ""
  · simp only [if_pos htext]
    rfl
  · simp only [if_neg htext]
    exact run_performInPlace s _

/-- What an operation in place comes to if it gives the session back, whether it
fails or not. -/
def ended {α : Type} :
    Except Error α × Session → EStateM.Result Error Session α
  | (.ok a, s') => .ok a s'
  | (.error e, s') => .error e s'

theorem run_addInPlace (s : Session) (line : String) (number : Option Int) :
    (addInPlace line number).run s = ended (s.add line number) := by
  unfold addInPlace
  rw [EStateM.run_bind, EStateM.run_modify]
  show ((executeInPlace line >>= _ : InPlace Reply)).run (s.noted line number) = _
  rw [EStateM.run_bind, run_executeInPlace]
  cases hexecute : (s.noted line number).execute line with
  | error e =>
      rw [add_of_error hexecute]
      rfl
  | ok r =>
      rw [add_of_ok hexecute]
      rfl

/-! ## What a line asks for -/

/-- The word behind the colon that a text starts with, if it does, and the text
after the word. -/
def colonWord? (text : String) : Option (String × String) :=
  match text.toList with
  | ':' :: rest =>
      let (word, arg) := splitAtChar ' ' (String.ofList (Text.trim rest))
      some (word, trimmed arg)
  | _ => none

/-- The word behind the colon that a line starts with, comments and blanks
aside. -/
def commandWord? (line : String) : Option String :=
  (colonWord? (trimmed (clean line))).map Prod.fst

/-- The statement of a line that is a definition: what follows `:let`, or the
line itself. -/
def definition? (line : String) : Option String :=
  let text := trimmed (clean line)
  match colonWord? text with
  | some (word, arg) => if word = "let" then some arg else none
  | none => if isDefinition text then some text else none

theorem execute_of_ofLine {line : String} {command : Command}
    (htext : trimmed (clean line) ≠ "")
    (hcommand : Command.ofLine (trimmed (clean line)) = command) (s : Session) :
    s.execute line = s.perform command := by
  rw [execute, if_neg htext, hcommand]

theorem colonWord?_eq_none {text : String}
    (h : ¬ ∃ rest, text.toList = ':' :: rest) : colonWord? text = none := by
  unfold colonWord?
  split
  · next rest heq => exact absurd ⟨rest, heq⟩ h
  · rfl

theorem ofLine_eq (text : String) :
    Command.ofLine text =
      match colonWord? text with
      | some (word, arg) => .ofWord text word arg
      | none => if isDefinition text then .define text else .evaluate text := by
  by_cases hcolon : ∃ rest, text.toList = ':' :: rest
  · obtain ⟨rest, hrest⟩ := hcolon
    unfold Command.ofLine colonWord?
    rw [hrest]
    rfl
  · rw [colonWord?_eq_none hcolon]
    unfold Command.ofLine
    split
    · next rest heq => exact absurd ⟨rest, heq⟩ hcolon
    · rfl

/-- The words that ask for a command. -/
def Command.words : Command → List String
  | .quit => ["q", "quit"]
  | .help => ["h", "help"]
  | .clear => ["clr", "clear"]
  | .define _ => ["let"]
  | .evaluate _ => ["e", "eval"]
  | .step _ => ["b", "beta"]
  | .expand _ => ["x", "expand"]
  | .outline _ => ["p", "parse"]
  | .number _ => ["n", "num"]
  | .unknown _ word => [word]

theorem mem_words_ofWord (line word arg : String) :
    word ∈ (Command.ofWord line word arg).words := by
  unfold Command.ofWord
  split <;> simp [Command.words]

theorem ofWord_eq_define {line word arg statement : String}
    (h : Command.ofWord line word arg = .define statement) :
    word = "let" ∧ statement = arg := by
  have hword := mem_words_ofWord line word arg
  rw [h, Command.words, List.mem_singleton] at hword
  subst hword
  cases h
  exact ⟨rfl, rfl⟩

theorem definition?_of_ofLine {line statement : String}
    (h : Command.ofLine (trimmed (clean line)) = .define statement) :
    definition? line = some statement := by
  rw [ofLine_eq] at h
  unfold definition?
  cases hparts : colonWord? (trimmed (clean line)) with
  | some parts =>
      rw [hparts] at h
      obtain ⟨hword, harg⟩ := ofWord_eq_define h
      simp only [hparts, hword, if_true, harg]
  | none =>
      rw [hparts] at h
      by_cases hdef : isDefinition (trimmed (clean line)) = true
      · simp only [hdef, if_true, Command.define.injEq] at h
        rw [← h]
        simp only [hparts, hdef, if_true]
      · simp [hdef] at h

theorem commandWord?_of_ofLine {line : String} {command : Command}
    (h : Command.ofLine (trimmed (clean line)) = command)
    (hdefine : ∀ statement, command ≠ .define statement)
    (hevaluate : ∀ expr, command ≠ .evaluate expr) :
    ∃ word ∈ command.words, commandWord? line = some word := by
  rw [ofLine_eq] at h
  unfold commandWord?
  cases hparts : colonWord? (trimmed (clean line)) with
  | some parts =>
      have hmem := mem_words_ofWord (trimmed (clean line)) parts.1 parts.2
      rw [hparts] at h
      have hword : Command.ofWord (trimmed (clean line)) parts.1 parts.2 = command := h
      rw [hword] at hmem
      exact ⟨parts.1, hmem, rfl⟩
  | none =>
      rw [hparts] at h
      by_cases hdef : isDefinition (trimmed (clean line)) = true
      · exact absurd h.symm (by simpa [hdef] using hdefine _)
      · exact absurd h.symm (by simpa [hdef] using hevaluate _)

/-! ## What a line changes -/

/-- The sessions that a command can lead to. -/
theorem session_of_perform {s s' : Session} {command : Command} {reply : Reply}
    (h : s.perform command = .ok (reply, s')) :
    (command = .quit ∧ s' = { s with done := true }) ∨
      (command = .clear ∧ s' = s.clear) ∨
      (∃ statement t, command = .define statement ∧
        s.bind statement = .ok (t, s')) ∨ s' = s := by
  cases command with
  | quit =>
      cases h
      exact .inl ⟨rfl, rfl⟩
  | clear =>
      cases h
      exact .inr (.inl ⟨rfl, rfl⟩)
  | define statement =>
      obtain ⟨⟨shown, s₁⟩, hdefine, hreply⟩ := map_eq_ok.1 h
      obtain ⟨⟨t, s₂⟩, hbind, hshown⟩ := map_eq_ok.1 hdefine
      cases hreply
      cases hshown
      exact .inr (.inr (.inl ⟨statement, t, rfl, hbind⟩))
  | help =>
      cases h
      exact .inr (.inr (.inr rfl))
  | evaluate expr | step expr | expand expr | outline expr | number expr =>
      obtain ⟨r, -, hreply⟩ := map_eq_ok.1 h
      cases hreply
      exact .inr (.inr (.inr rfl))
  | unknown line word => cases h

/-- What a line may have changed after it has run. -/
structure Effect (s : Session) (line : String) (s' : Session) : Prop where
  frame : s' = { s with environment := s'.environment, done := s'.done }
  environment :
    (∃ statement, definition? line = some statement ∧
        s.environment.DiffersOnlyAt (definedName statement) s'.environment) ∨
      (commandWord? line ∈ [some "clr", some "clear"] ∧ s'.environment = ∅) ∨
      s'.environment = s.environment
  done : s'.done ≠ s.done → commandWord? line ∈ [some "q", some "quit"]

theorem effect_refl (s : Session) (line : String) : s.Effect line s :=
  ⟨rfl, .inr (.inr rfl), fun h => absurd rfl h⟩

theorem effect_of_execute {s s' : Session} {line : String} {reply : Reply}
    (h : s.execute line = .ok (reply, s')) : s.Effect line s' := by
  unfold execute at h
  by_cases htext : trimmed (clean line) = ""
  · rw [if_pos htext] at h
    cases h
    exact effect_refl s line
  · rw [if_neg htext] at h
    rcases session_of_perform h with
      ⟨hquit, rfl⟩ | ⟨hclear, rfl⟩ | ⟨statement, t, hdefine, hbind⟩ | rfl
    · obtain ⟨word, hmem, hword⟩ :=
        commandWord?_of_ofLine hquit (by simp) (by simp)
      refine ⟨rfl, .inr (.inr rfl), fun _ => ?_⟩
      rw [hword]
      simpa [Command.words] using hmem
    · obtain ⟨word, hmem, hword⟩ :=
        commandWord?_of_ofLine hclear (by simp) (by simp)
      refine ⟨rfl, .inr (.inl ⟨?_, rfl⟩), fun h => absurd rfl h⟩
      rw [hword]
      simpa [Command.words] using hmem
    · obtain ⟨-, -, -, -, rfl⟩ := bind_eq_ok_iff.1 hbind
      refine ⟨rfl, .inl ⟨statement, definition?_of_ofLine hdefine, ?_⟩,
        fun h => absurd rfl h⟩
      exact Table.differsOnlyAt_insert _ _ _
    · exact effect_refl s' line

/-- If an operation in place fails, then definitions, results and the end of the
session are as they were. -/
def UnchangedByFailure {α : Type} (s : Session) (op : InPlace α) : Prop :=
  ∀ e s', op.run s = .error e s' →
    s'.environment = s.environment ∧ s'.done = s.done ∧ s'.results = s.results

theorem unchangedByFailure_of_outcome {α : Type} {s : Session} {op : InPlace α}
    {x : Except Error (α × Session)} (h : op.run s = s.outcome x) :
    s.UnchangedByFailure op := by
  intro e s' hfail
  rw [h] at hfail
  cases x with
  | error e' =>
      cases hfail
      exact ⟨rfl, rfl, rfl⟩
  | ok r => cases hfail

theorem unchangedByFailure_add (s : Session) (line : String)
    (number : Option Int) : s.UnchangedByFailure (addInPlace line number) := by
  intro e s' hfail
  rw [run_addInPlace] at hfail
  cases hexecute : (s.noted line number).execute line with
  | error e' =>
      rw [add_of_error hexecute] at hfail
      cases hfail
      exact ⟨rfl, rfl, rfl⟩
  | ok r =>
      rw [add_of_ok hexecute] at hfail
      cases hfail

/-- **Operations take effect as a whole or not at all, and change only what they
name.**  Carried out in place, taking up a definition and running a line, noted
or not, come to the same as the operations of the session, and if they fail
they have changed nothing.  A line that runs changes nothing but the entry of
the name that it defines, unless it empties the environment, and ends the
session only if it asks for that. -/
theorem operations_atomic (s : Session) :
    (∀ statement, (bindInPlace statement).run s = s.outcome (s.bind statement) ∧
      s.UnchangedByFailure (bindInPlace statement)) ∧
      (∀ line, (executeInPlace line).run s = s.outcome (s.execute line) ∧
        s.UnchangedByFailure (executeInPlace line)) ∧
      (∀ line number, (addInPlace line number).run s = ended (s.add line number) ∧
        s.UnchangedByFailure (addInPlace line number)) ∧
      ∀ line reply s', s.execute line = .ok (reply, s') → s.Effect line s' := by
  refine ⟨fun statement => ?_, fun line => ?_, fun line number => ?_, ?_⟩
  · have hrun := run_bindInPlace s statement
    exact ⟨hrun, unchangedByFailure_of_outcome hrun⟩
  · have hrun := run_executeInPlace s line
    exact ⟨hrun, unchangedByFailure_of_outcome hrun⟩
  · exact ⟨run_addInPlace s line number, unchangedByFailure_add s line number⟩
  · intro line reply s' h
    exact effect_of_execute h

/-- The first of two names is given another definition and stays the first. -/
theorem operations_atomic_redefined :
    let env : Environment :=
      (Table.insert ∅ "k" (.var "x")).insert "z" (.var "y")
    let s := { typedIn ⟨.plain, true, ∅⟩ .usual with environment := env }
    let s' := { s with environment := env.insert "k" (.var "z") }
    let line := " :let k = z ;; again"
    s.execute line = .ok ({ output := some "k = z" }, s') ∧
      s'.environment.keys = ["k", "z"] ∧ s.Effect line s' ∧
      s.UnchangedByFailure (addInPlace "k = (k" (some 2)) := by
  intro env s s' line
  have htext : trimmed (clean line) = ":let k = z" := by decide +kernel
  have hcommand : Command.ofLine ":let k = z" = .define "k = z" := by
    decide +kernel
  have hself : ¬ env.Reaches "k" (.var "z") := Environment.not_reaches (by cbv)
  have hright : definingText "k = z" = "z" := by decide
  have hparse : Grammar.parse (definingText "k = z") = .ok (.var "z") := by
    rw [hright]
    exact (Grammar.parse_eq_var_iff "z").2 (by decide)
  have hbind : s.bind "k = z" = .ok (.var "z", s') :=
    bind_eq_ok_iff.2 ⟨by decide, by decide, hparse, hself, rfl⟩
  have hline : s.execute line = .ok ({ output := some "k = z" }, s') := by
    rw [execute, htext, if_neg (by decide), hcommand, perform, define, hbind]
    rfl
  have hatomic := operations_atomic s
  exact ⟨hline, by decide, hatomic.2.2.2 line _ s' hline,
    (hatomic.2.2.1 "k = (k" (some 2)).2⟩

end Session

end UntypedLambda
