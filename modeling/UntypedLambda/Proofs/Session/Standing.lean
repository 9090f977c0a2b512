import UntypedLambda.Proofs.Session.Atomicity
import UntypedLambda.Proofs.Session.Definition

/-!
# What is left after a command

What matters about a command after it has been carried out are the definitions
and whether the session has ended, and about one that is refused only that it was
(`standing?`).  For this a session matters only by its definitions, its end and
its ceiling (`Alike`), not by what it notes for the reports; and a text matters
only by the term that is read from it and by what it defines (`SameText`).

## Main results

* `standing?_bind_eq_some_iff`: what is left after a definition.
* `standing?_ofWord`: commands with the same word.
-/

namespace UntypedLambda.Session

/-- The definitions after an operation that was not refused, and whether the
session has ended. -/
def standing? {α : Type} : Except Error (α × Session) → Option (Environment × Bool)
  | .ok (_, s) => some (s.environment, s.done)
  | .error _ => none

/-- Two sessions in which the same operations are refused. -/
structure Alike (s s' : Session) : Prop where
  environment : s.environment = s'.environment
  done : s.done = s'.done
  ceiling : s.ceiling = s'.ceiling

theorem alike_noted (s : Session) (line line' : String) (number : Option Int) :
    Alike (s.noted line number) (s.noted line' number) := ⟨rfl, rfl, rfl⟩

/-- Two texts that are the same term and define the same, if anything. -/
structure SameText (a b : String) : Prop where
  term : ∀ t, Grammar.parse a = .ok t ↔ Grammar.parse b = .ok t
  definition : ∀ x t, Defines a t ∧ definedName a = x ↔ Defines b t ∧ definedName b = x

/-- An operation that only looks at the session leaves it as it is or is refused. -/
theorem standing?_look {α β : Type} {s s' : Session} (hs : Alike s s')
    {r r' : Except Error α} (hr : r.isOk = r'.isOk) (f f' : α → β) :
    standing? (r.map fun a => (f a, s)) = standing? (r'.map fun a => (f' a, s')) := by
  cases r with
  | error e =>
      cases r' with
      | error e' => rfl
      | ok a' => cases hr
  | ok a =>
      cases r' with
      | error e' => cases hr
      | ok a' =>
          show some (s.environment, s.done) = some (s'.environment, s'.done)
          rw [hs.environment, hs.done]

/-- What is left after a definition. -/
theorem standing?_bind_eq_some_iff {s : Session} {statement : String}
    {after : Environment × Bool} :
    standing? (s.bind statement) = some after ↔
      ∃ x t, (Defines statement t ∧ definedName statement = x) ∧
        ¬ s.environment.Reaches x t ∧ (s.environment.insert x t, s.done) = after := by
  constructor
  · intro h
    cases hbind : s.bind statement with
    | error e =>
        rw [hbind] at h
        cases h
    | ok r =>
        rw [hbind] at h
        obtain ⟨hmark, hname, hterm, hself, hafter⟩ := bind_eq_ok_iff.1 hbind
        cases h
        rw [hafter]
        exact ⟨_, r.1, ⟨⟨hmark, hname, hterm⟩, rfl⟩, hself, rfl⟩
  · rintro ⟨x, t, ⟨hdefines, rfl⟩, hself, rfl⟩
    rw [bind_of_not_reaches hdefines hself]
    rfl

/-! ## Commands -/

section

variable {s s' : Session} {a b : String}

theorem standing?_perform_define (s : Session) (statement : String) :
    standing? (s.perform (.define statement)) = standing? (s.bind statement) := by
  rw [perform, define]
  cases s.bind statement <;> rfl

/-- What is left after a line that is a definition. -/
theorem standing?_execute_define (s : Session) {line : String} (hne : line ≠ "")
    (hclean : clean line = line) (htrim : trimmed line = line)
    (hcommand : Command.ofLine line = .define line) :
    standing? (s.execute line) = standing? (s.bind line) := by
  have htext : trimmed (clean line) = line := by rw [hclean, htrim]
  rw [execute_of_ofLine (by rwa [htext]) (by rw [htext, hcommand]),
    standing?_perform_define]

theorem standing?_define (hs : Alike s s') (h : SameText a b) :
    standing? (s.perform (.define a)) = standing? (s'.perform (.define b)) := by
  apply Option.ext
  intro after
  rw [standing?_perform_define, standing?_perform_define, standing?_bind_eq_some_iff,
    standing?_bind_eq_some_iff]
  simp only [h.definition, hs.environment, hs.done]

/-- Both texts are read as the same term, or none of them as any. -/
theorem SameText.parse_cases (h : SameText a b) :
    (∃ t, parse a = .ok t ∧ parse b = .ok t) ∨
      ∃ e e', parse a = .error e ∧ parse b = .error e' := by
  unfold parse
  cases ha : Grammar.parse a with
  | ok t =>
      rw [(h.term t).1 ha]
      exact .inl ⟨t, rfl, rfl⟩
  | error e =>
      cases hb : Grammar.parse b with
      | ok t =>
          rw [(h.term t).2 hb] at ha
          cases ha
      | error e' => exact .inr ⟨_, _, rfl, rfl⟩

theorem SameText.isOk_expand (h : SameText a b) :
    (s.expand a).isOk = (s'.expand b).isOk := by
  rw [expand, expand]
  rcases h.parse_cases with ⟨t, ha, hb⟩ | ⟨e, e', ha, hb⟩
  · rw [ha, hb]
    rfl
  · rw [ha, hb]
    rfl

theorem isOk_evaluate {t : Term} (h : parse a = .ok t) :
    (s.evaluate a).isOk = (s.ceiling.reduce? (s.environment.expandTop t)).isSome := by
  have hexpand : s.expand a = .ok (s.environment.expandTop t) := by
    rw [expand, h]
    rfl
  cases hreduce : s.ceiling.reduce? (s.environment.expandTop t) with
  | none =>
      have hfails : s.evaluate a = .error .noCeiling :=
        bind_eq_error.2 (.inr ⟨_, hexpand, by rw [hreduce]; rfl⟩)
      rw [hfails]
      rfl
  | some r =>
      have hruns : s.evaluate a = .ok (r.term,
          if r.normal then [] else [s.handler.warn (ceilingNotice a r.passes)]) :=
        bind_eq_ok.2 ⟨_, hexpand, by rw [hreduce]; rfl⟩
      rw [hruns]
      rfl

theorem SameText.isOk_evaluate (h : SameText a b) (hs : Alike s s') :
    (s.evaluate a).isOk = (s'.evaluate b).isOk := by
  rcases h.parse_cases with ⟨t, ha, hb⟩ | ⟨e, e', ha, hb⟩
  · rw [Session.isOk_evaluate ha, Session.isOk_evaluate hb, hs.environment, hs.ceiling]
  · rw [evaluate, evaluate, expand, expand, ha, hb]
    rfl

theorem isOk_map {α β : Type} (r : Except Error α) (f : α → β) :
    (r.map f).isOk = r.isOk := by
  cases r <;> rfl

/-- Commands with the same word and the same text leave the same. -/
theorem standing?_ofWord (hs : Alike s s') (h : SameText a b)
    (line line' word : String) :
    standing? (s.perform (.ofWord line word a)) =
      standing? (s'.perform (.ofWord line' word b)) := by
  unfold Command.ofWord
  split
  case h_1 | h_2 =>
    show some (s.environment, true) = some (s'.environment, true)
    rw [hs.environment]
  case h_3 | h_4 =>
    show some (s.environment, s.done) = some (s'.environment, s'.done)
    rw [hs.environment, hs.done]
  case h_5 | h_6 =>
    show some (∅, s.done) = some (∅, s'.done)
    rw [hs.done]
  case h_7 => exact standing?_define hs h
  case h_8 | h_9 => exact standing?_look hs (h.isOk_evaluate hs) _ _
  case h_10 | h_11 =>
    have hstep : (s.step a).isOk = (s'.step b).isOk := by
      rw [step, step, isOk_map, isOk_map, h.isOk_expand]
    exact standing?_look hs hstep _ _
  case h_12 | h_13 => exact standing?_look hs h.isOk_expand _ _
  case h_14 | h_15 =>
    have hparse : (parse a).isOk = (parse b).isOk := by
      rcases h.parse_cases with ⟨t, ha, hb⟩ | ⟨e, e', ha, hb⟩
      · rw [ha, hb]
      · rw [ha, hb]
        rfl
    exact standing?_look hs hparse _ _
  case h_16 | h_17 =>
    have hnumber : (s.number a).isOk = (s'.number b).isOk := by
      rw [number, number, isOk_map, isOk_map, h.isOk_evaluate hs]
    exact standing?_look hs hnumber _ _
  case h_18 => rfl

end

end UntypedLambda.Session
