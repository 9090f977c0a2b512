import UntypedLambda.Proofs.Session.Standing
import UntypedLambda.Proofs.Shell.Gap
import UntypedLambda.Proofs.Shell.Survival

/-!
# What comes of a line with a space after a word of the shell

A line with a space after a word of the shell, whatever blanks it has there or
none, comes to the same in a session as the line without: it asks for the same
command with the same text.  Only if the word is a part of the word behind a
colon, then that word may become another one; but of the commands only `:help` has
a word of the shell in it, and help changes nothing (`Covers`).

So passing on the one or the other to a session is the same for what is left
(`Turn.standing`).

## Main results

* `covers_execute`: what the session makes of a line with the space.
* `standing_handOver`, `accepted_handOver_iff`: what a turn leaves, and whether the
  line is accepted.
* `standing_passOn`: what the shell makes of a line with the space.
-/

namespace UntypedLambda.Shell

open Diagnostic Session

/-! ## Commands -/

/-- The second of two outcomes in a session is no worse than the first: it is the
same, unless the first is a refusal and the second leaves everything as it was. -/
def Covers (s : Session) (r r' : Option (Environment × Bool)) : Prop :=
  r' = r ∨ r = none ∧ r' = some (s.environment, s.done)

theorem Spaced.sameText {a b : String} (h : Spaced a.toList b.toList) :
    SameText a b := by
  refine ⟨fun t => ?_, h.defines_iff⟩
  have hparse := h.parse_iff t
  rwa [String.ofList_toList, String.ofList_toList] at hparse

/-- A word with all characters of a word of the shell in it asks for help or is
unknown. -/
theorem ofWord_of_subset {word : String}
    (h : ∃ w ∈ shellWords, w.toList ⊆ word.toList) :
    word = "help" ∨ ∀ line arg, Command.ofWord line word arg = .unknown line word := by
  by_cases hhelp : word = "help"
  · exact .inl hhelp
  · refine .inr fun line arg => ?_
    unfold Command.ofWord
    split
    case h_4 => exact absurd rfl hhelp
    case h_18 => rfl
    all_goals exact absurd h (by decide)

/-- If the word of the shell stands in the word behind a colon, then the space ends
that word there. -/
theorem covers_ofWord_of_prefix {s s' : Session} (hs : Alike s s') {front : List Char}
    (hfront : ∃ w ∈ shellWords, w.toList <:+ front) {word : String}
    (hstart : front <+: word.toList) (line line' arg arg' : String) :
    Covers s (standing? (s.perform (.ofWord line word arg)))
      (standing? (s'.perform (.ofWord line' (String.ofList front) arg'))) := by
  obtain ⟨w, hw, hsuffix⟩ := hfront
  have hhelp : standing? (s'.perform .help) = some (s.environment, s.done) := by
    show some (s'.environment, s'.done) = _
    rw [hs.environment, hs.done]
  have hshort : ∃ w ∈ shellWords, w.toList ⊆ (String.ofList front).toList := by
    rw [String.toList_ofList]
    exact ⟨w, hw, hsuffix.subset⟩
  have hsubset : w.toList ⊆ word.toList :=
    List.Subset.trans hsuffix.subset hstart.subset
  rcases ofWord_of_subset ⟨w, hw, hsubset⟩ with rfl | hunknown
  · have honly : ∀ w ∈ shellWords, w.toList ⊆ "help".toList → w = "help" := by decide
    rw [honly w hw hsubset] at hsuffix
    rw [hstart.eq_of_length_le hsuffix.length_le, String.ofList_toList]
    exact .inl hhelp
  · rw [hunknown line arg]
    rcases ofWord_of_subset hshort with hfull | hunknown'
    · rw [hfull]
      exact .inr ⟨rfl, hhelp⟩
    · rw [hunknown' line' arg']
      exact .inl rfl

/-- What stands before the first space starts with what has no space in it. -/
theorem prefix_fst_splitAtChar {front : List Char} (h : ' ' ∉ front) (rest : List Char) :
    front <+: (splitAtChar ' ' (String.ofList (front ++ rest))).1.toList := by
  by_cases hrest : ' ' ∈ rest
  · obtain ⟨before, after, rfl, hbefore⟩ := List.eq_append_cons_of_mem hrest
    have hchars : (String.ofList (front ++ (before ++ ' ' :: after))).toList =
        (front ++ before) ++ ' ' :: after := by simp
    rw [splitAtChar_of_toList hchars (by simp [h, hbefore]), String.toList_ofList]
    exact List.prefix_append _ _
  · rw [splitAtChar_of_not_mem (by simp [h, hrest]), String.toList_ofList]
    exact List.prefix_append _ _

/-- What the text behind a colon asks for. -/
theorem covers_colonWord {s s' : Session} (hs : Alike s s') {as bs : List Char}
    (h : Spaced as bs) (line line' : String) :
    let parts := splitAtChar ' ' (String.ofList as)
    let parts' := splitAtChar ' ' (String.ofList bs)
    Covers s (standing? (s.perform (.ofWord line parts.1 (trimmed parts.2))))
      (standing? (s'.perform (.ofWord line' parts'.1 (trimmed parts'.2)))) := by
  intro parts parts'
  cases h with
  | same => exact .inl (standing?_ofWord hs (Spaced.same _).sameText _ _ _).symm
  | @gap front gap back h =>
      by_cases hfront : ' ' ∈ front
      · obtain ⟨word, rest, rfl, hword⟩ := List.eq_append_cons_of_mem hfront
        have hrest := Spaced.gap (h.of_append (.inl (by decide)))
        have hparts : ∀ cs, splitAtChar ' ' (String.ofList (word ++ ' ' :: rest ++ cs)) =
            (String.ofList word, String.ofList (rest ++ cs)) := fun cs =>
          splitAtChar_of_toList (by simp) hword
        have htext : SameText (trimmed (String.ofList (rest ++ (gap ++ back))))
            (trimmed (String.ofList (rest ++ ([' '] ++ back)))) := by
          apply Spaced.sameText
          rw [toList_trimmed, toList_trimmed, String.toList_ofList, String.toList_ofList]
          exact hrest.trim
        rw [show parts = _ from hparts _, show parts' = _ from hparts _]
        exact .inl (standing?_ofWord hs htext _ _ _).symm
      · -- the first space is the one after the word
        have hparts' : parts' = (String.ofList front, String.ofList back) :=
          splitAtChar_of_toList (by simp) hfront
        rw [hparts']
        exact covers_ofWord_of_prefix hs h.word (prefix_fst_splitAtChar hfront _) _ _ _ _

/-- What a line with the space asks for. -/
theorem covers_ofLine {s s' : Session} (hs : Alike s s') {a b : String}
    (h : Spaced a.toList b.toList) :
    Covers s (standing? (s.perform (.ofLine a))) (standing? (s'.perform (.ofLine b))) := by
  rw [ofLine_eq, ofLine_eq]
  by_cases hcolon : ∃ rest, a.toList = ':' :: rest
  · obtain ⟨as, ha⟩ := hcolon
    rw [ha] at h
    obtain ⟨bs, hb, hrest⟩ := h.tail (by decide)
    rw [colonWord?_eq_some ha, colonWord?_eq_some hb]
    exact covers_colonWord hs hrest.trim a b
  · have hcolon' : ¬ ∃ rest, b.toList = ':' :: rest := by
      rintro ⟨rest, hrest⟩
      have hhead := h.head?_eq
      rw [hrest] at hhead
      exact hcolon (List.head?_eq_some_iff.1 hhead)
    have hdef : isDefinition a = isDefinition b := h.hasOuterEquals_eq 0
    have hword := standing?_ofWord hs h.sameText "" ""
    rw [colonWord?_eq_none hcolon, colonWord?_eq_none hcolon', hdef]
    dsimp only
    split
    · exact .inl (hword "let").symm
    · exact .inl (hword "e").symm

/-- What comes of a line with the space. -/
theorem covers_execute {s s' : Session} (hs : Alike s s') {a b : String}
    (h : Spaced a.toList b.toList) :
    Covers s (standing? (s.execute a)) (standing? (s'.execute b)) := by
  have htext : Spaced (trimmed (clean a)).toList (trimmed (clean b)).toList := by
    rw [toList_trimmed, toList_trimmed, toList_clean, toList_clean]
    exact h.cleanChars.trim
  have hempty : trimmed (clean a) = "" ↔ trimmed (clean b) = "" := by
    rw [← String.toList_eq_nil_iff, ← String.toList_eq_nil_iff, ← List.head?_eq_none_iff,
      ← List.head?_eq_none_iff, htext.head?_eq]
  unfold execute
  dsimp only
  by_cases ha : trimmed (clean a) = ""
  · rw [if_pos ha, if_pos (hempty.1 ha)]
    refine .inl ?_
    show some (s'.environment, s'.done) = some (s.environment, s.done)
    rw [hs.environment, hs.done]
  · rw [if_neg ha, if_neg (mt hempty.2 ha)]
    exact covers_ofLine hs htext

/-! ## Lines that are passed on -/

/-- What a turn leaves: whether no more lines are read, the definitions, and whether
the session has ended. -/
def Turn.standing (turn : Turn) : Bool × Environment × Bool :=
  (turn.stop, turn.shell.session.environment, turn.shell.session.done)

/-- A turn in which no error is reported and nothing fails. -/
structure Turn.Accepted (turn : Turn) : Prop where
  completed : turn.ending = .completed
  noError : ∀ trace n, Output.report (.error trace n) ∉ turn.output

theorem standing_handOver (sh : Shell) (text : String) :
    (sh.handOver text).standing =
      let left := (standing? ((sh.session.noted text
        (some (sh.lineNumber + 1 : Nat))).execute text)).getD
          (sh.session.environment, sh.session.done)
      (left.2, left) := by
  unfold handOver
  generalize sh.lineNumber + 1 = number
  cases hexecute : (sh.session.noted text (some number)).execute text with
  | error e =>
      rw [add_of_error hexecute]
      rfl
  | ok r =>
      rw [add_of_ok hexecute]
      rfl

/-- A line that is refused is not accepted. -/
theorem not_accepted_conclude_error (number : Nat) (e : Error) (s : Session) :
    ¬ (conclude number (.error e, s)).Accepted := by
  intro h
  have hcompleted : (s.handler.settle (some e.interruption)).1 = .completed :=
    h.completed
  have hreports : ∀ trace n, Output.report (.error trace n) ∉
      (s.handler.settle (some e.interruption)).2.1.map .report := h.noError
  unfold Error.interruption at hcompleted hreports
  cases hnotice : e.notice? with
  | some n =>
      rw [hnotice] at hreports
      exact hreports s.handler.trace.entries n (List.mem_singleton_self _)
  | none =>
      rw [hnotice] at hcompleted
      exact Handler.ending_settle_fault _ _ _ hcompleted

theorem accepted_handOver_iff (sh : Shell) (text : String) :
    (sh.handOver text).Accepted ↔
      (standing? ((sh.session.noted text
        (some (sh.lineNumber + 1 : Nat))).execute text)).isSome := by
  unfold handOver
  generalize sh.lineNumber + 1 = number
  cases hexecute : (sh.session.noted text (some number)).execute text with
  | error e =>
      rw [add_of_error hexecute]
      exact iff_of_false (not_accepted_conclude_error number e _) Bool.false_ne_true
  | ok r =>
      have hwarnings := warnings_of_execute hexecute
      rw [add_of_ok hexecute]
      refine iff_of_true ⟨rfl, not_error_mem_conclude fun report hreport => ?_⟩ rfl
      exact ⟨_, hwarnings report hreport⟩

theorem spaced_continueLine (pending : Option String) {a b : String}
    (h : Spaced a.toList b.toList) :
    Spaced (continueLine pending a).toList (continueLine pending b).toList := by
  unfold continueLine
  rw [toList_clean, toList_clean]
  cases pending with
  | none => exact h.cleanChars
  | some before =>
      dsimp only
      rw [toList_joinLines, toList_joinLines]
      exact (h.append_left [' ']).append_left before.toList |>.cleanChars

/-- What the shell makes of a line that it passes on with the space. -/
theorem standing_passOn (sh : Shell) {a b : String} (h : Spaced a.toList b.toList) :
    (sh.passOn b).standing = (sh.passOn a).standing ∧
      ((sh.passOn a).Accepted → (sh.passOn b).Accepted) := by
  have htext := spaced_continueLine sh.pending h
  have hopen : leavesOpen (continueLine sh.pending a) =
      leavesOpen (continueLine sh.pending b) := htext.leavesOpenChars_eq
  cases ha : sh.handed? a with
  | none =>
      have hb : sh.handed? b = none := by
        rw [handed?_eq_none_iff, ← hopen]
        exact (sh.handed?_eq_none_iff a).1 ha
      rw [passOn_of_kept ha, passOn_of_kept hb]
      exact ⟨rfl, fun _ => ⟨rfl, fun _ _ => List.not_mem_nil⟩⟩
  | some text =>
      obtain ⟨hclosed, rfl⟩ := (sh.handed?_eq_some_iff a _).1 ha
      have hb : sh.handed? b = some (continueLine sh.pending b) :=
        (sh.handed?_eq_some_iff b _).2 ⟨hopen ▸ hclosed, rfl⟩
      have hcovers := covers_execute (alike_noted sh.session (continueLine sh.pending a)
        (continueLine sh.pending b) (some (sh.lineNumber + 1 : Nat))) htext
      rw [passOn_of_handed ha, passOn_of_handed hb, standing_handOver, standing_handOver,
        accepted_handOver_iff, accepted_handOver_iff]
      rcases hcovers with hsame | ⟨hrefused, hkept⟩
      · rw [hsame]
        exact ⟨rfl, id⟩
      · rw [hrefused, hkept]
        exact ⟨rfl, fun hnone => absurd hnone Bool.false_ne_true⟩

end UntypedLambda.Shell
