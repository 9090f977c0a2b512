import UntypedLambda.Proofs.Session.Joining
import UntypedLambda.Proofs.Session.Source
import UntypedLambda.Proofs.Shell.Turn

/-!
# Files and typed-in lines are split in the same way

Lines that go on in the next line are joined by the reader of source files and
by the shell.  The reader takes the physical lines as they are and trims what
comes out; the shell is given lines that are trimmed already and without the
blank ones.  This makes no difference: at every time the line that the shell
keeps is the trimmed form of the one that the reader is at.  What the session
makes of the lines does not matter for this.

## Main results

* `passOn_typed`: one physical line.
* `texts_joinFrom`: all of them, from any unfinished line on.
* `read_eq_typed`: a file is read as the shell reads its lines.
-/

namespace UntypedLambda

namespace Session

/-- The lines that are typed in for some physical lines: these without the blanks
around them, unless nothing is left. -/
def typedLines (physical : List String) : List String :=
  (physical.map trimmed).filter (· ≠ "")

/-- What the shell is at is the trimmed form of what the reader is at. -/
theorem continueLine_typed {unfinished : Option String}
    (h : ∀ text ∈ unfinished, Unfinished text) {physical : String}
    (hphysical : trimmed physical ≠ "") :
    continueLine (unfinished.map trimmed) (trimmed physical) =
      trimmed (nextText unfinished physical) := by
  cases unfinished with
  | none => exact (trimmed_clean physical).symm
  | some text => exact (h text rfl).continueLine_trimmed hphysical

end Session

namespace Shell

open Session

/-- The lines that a shell hands to its session when some lines are passed on. -/
def handedLines (sh : Shell) : List String → List String
  | [] => []
  | line :: rest =>
      (sh.handed? line).toList ++ handedLines (sh.passOn line).shell rest

/-- A shell after some lines have been passed on. -/
def afterPassing (sh : Shell) : List String → Shell
  | [] => sh
  | line :: rest => afterPassing (sh.passOn line).shell rest

/-- The shell hands on a line when the reader is done with one, and keeps a line
when the reader does, both in trimmed form. -/
theorem passOn_typed {sh : Shell} {unfinished : Option String}
    (hunfinished : ∀ text ∈ unfinished, Unfinished text)
    (hsh : sh.pending = unfinished.map trimmed) {physical : String}
    (hphysical : trimmed physical ≠ "") :
    let text := nextText unfinished physical
    sh.handed? (trimmed physical) =
        (if leavesOpen text then none else some (trimmed text)) ∧
      (sh.passOn (trimmed physical)).shell.pending =
        if leavesOpen text then some (trimmed text) else none := by
  intro text
  have hnext := continueLine_typed hunfinished hphysical
  rw [← hsh] at hnext
  constructor
  · rw [handed?, hnext, leavesOpen_trimmed]
  · rw [pending_passOn, hnext, leavesOpen_trimmed]

/-- **What the reader of a file finds is what the shell hands on**, blank lines
aside, and the line that the shell still keeps at the end. -/
theorem texts_joinFrom (physical : List String) {p : Option Line} {sh : Shell}
    (hp : ∀ line ∈ p, Unfinished line.text)
    (hsh : sh.pending = p.map fun line => trimmed line.text) (n : Nat) :
    (joinFrom p n physical).map Line.text =
      (sh.handedLines (typedLines physical)).filter (trimmed · ≠ "") ++
        (sh.afterPassing (typedLines physical)).pending.toList := by
  induction physical generalizing p sh n with
  | nil =>
      show _ = [] ++ sh.pending.toList
      rw [hsh, joinFrom]
      cases p <;> rfl
  | cons l rest ih =>
      by_cases hblank : trimmed l = ""
      · have htyped : typedLines (l :: rest) = typedLines rest := by
          simp [typedLines, hblank]
        rw [joinFrom_blank hp n hblank, htyped]
        exact ih hp hsh (n + 1)
      · have htyped : typedLines (l :: rest) = trimmed l :: typedLines rest := by
          simp [typedLines, hblank]
        have hunfinished : ∀ text ∈ p.map Line.text, Unfinished text := by
          simpa using hp
        have hpending : sh.pending = (p.map Line.text).map trimmed := by
          rw [hsh, Option.map_map]
          rfl
        obtain ⟨hhanded, hafter⟩ := passOn_typed hunfinished hpending hblank
        rw [joinFrom_cons, htyped, afterPassing, handedLines, hhanded]
        have hclean := clean_nextText (p.map Line.text) l
        generalize nextText (p.map Line.text) l = text at hafter hclean ⊢
        generalize (p.map Line.number).getD n = first
        dsimp only
        by_cases hopen : leavesOpen text = true
        · have hline : ∀ line ∈ some (Line.mk text first), Unfinished line.text := by
            rintro line ⟨⟩
            exact ⟨hclean, hopen⟩
          rw [if_pos hopen] at hafter
          rw [if_pos hopen, if_pos hopen, Option.toList_none, List.nil_append]
          exact ih hline hafter (n + 1)
        · have hnone : ∀ line ∈ (none : Option Line), Unfinished line.text := by
            simp
          rw [if_neg hopen] at hafter
          have hrest := ih hnone hafter (n + 1)
          rw [if_neg hopen, if_neg hopen, Option.toList_some,
            List.singleton_append, List.filter_cons, trimmed_trimmed]
          by_cases hempty : trimmed text = ""
          · simp only [hempty, if_true, ne_eq, not_true_eq_false, decide_false,
              Bool.false_eq_true, if_false]
            exact hrest
          · simp only [hempty, if_false, ne_eq, not_false_eq_true, decide_true,
              if_true, List.map_cons, List.cons_append]
            exact congrArg (trimmed text :: ·) hrest

theorem keepsUnfinished_afterPassing {sh : Shell} (h : sh.KeepsUnfinished)
    (lines : List String) : (sh.afterPassing lines).KeepsUnfinished := by
  induction lines generalizing sh with
  | nil => exact h
  | cons line rest ih =>
      rw [afterPassing]
      exact ih (sh.keepsUnfinished_passOn line)

theorem typedLines_append_empty (physical : List String) :
    typedLines (physical ++ [""]) = typedLines physical := by
  have hempty : trimmed "" = "" := by decide
  simp [typedLines, hempty]

/-- **A file is read as a shell reads its lines.**  A shell keeps a line that is
passed on or hands a line to its session, whatever that makes of it.  The lines
that are read from a file are those that a new shell hands on when it is given
the physical lines, trimmed and without the blank ones, and the line that it
still keeps at the end, if there is one. -/
theorem read_eq_typed {files : Files} {path : String} {text : List Char}
    {physical : List String} (hpath : '\x00' ∉ path.toList)
    (hfile : files path = some (Text.Utf8.encode text))
    (hphysical : ∀ line ∈ physical, Text.OneLine line.toList)
    (htext : WritesLines text physical) (session : Session) :
    let sh : Shell := { session }
    let last := sh.afterPassing (typedLines physical)
    let handed :=
      (sh.handedLines (typedLines physical)).filter (trimmed · ≠ "")
    (∀ (any : Shell) line,
        (any.handed? line = none →
          any.passOn line = any.keep (continueLine any.pending line)) ∧
        ∀ text, any.handed? line = some text →
          any.passOn line = any.handOver text) ∧
      ∃ read, readLines files path = .ok read ∧
        (last.pendingText = "" → read.map Line.text = handed) ∧
        (last.pendingText ≠ "" →
          read.map Line.text = handed ++ [last.pendingText]) := by
  intro sh last handed
  obtain ⟨found, hread, hfound⟩ := readLines_eq hpath hfile hphysical htext
  have htyped : typedLines found = typedLines physical := by
    rcases hfound with rfl | rfl
    · rfl
    · exact (typedLines_append_empty found).symm
  have htexts : (logicalLines found).map Line.text =
      handed ++ last.pending.toList := by
    have hjoin := @texts_joinFrom found none sh (by simp) rfl 1
    rw [htyped] at hjoin
    exact hjoin
  have hkeeps : last.KeepsUnfinished :=
    keepsUnfinished_afterPassing (keepsUnfinished_of_none rfl) _
  refine ⟨fun any line => ⟨passOn_of_kept, fun text => passOn_of_handed⟩,
    logicalLines found, hread, fun hempty => ?_, fun hne => ?_⟩
  · rw [htexts, hkeeps.pendingText_eq_empty_iff.1 hempty]
    exact List.append_nil handed
  · rw [htexts]
    cases hpending : last.pending with
    | none => exact absurd (hkeeps.pendingText_eq_empty_iff.2 hpending) hne
    | some text =>
        rw [pendingText, hpending]
        rfl

/-- A definition over four lines with a comment, a blank line and blanks in
between, a line that cannot be run, and a line that is not finished. -/
theorem read_eq_typed_unfinished :
    let physical :=
      ["K = (\\x y -> ;; first", " ", ";; (", "\t x) ;; K", "K = K", "  (K a"]
    let text := ("K = (\\x y -> ;; first\r\n \r\n;; (\r\n\t x) ;; K\r\n" ++
      "K = K\r\n  (K a").toList
    let files : Files := fun _ => some (Text.Utf8.encode text)
    let sh : Shell := { session := typedIn ⟨.plain, true, ∅⟩ .usual }
    let last := sh.afterPassing (typedLines physical)
    last.pendingText = "(K a" ∧
      ∃ read, readLines files "k.lc" = .ok read ∧
        read.map Line.text =
          (sh.handedLines (typedLines physical)).filter (trimmed · ≠ "") ++
            ["(K a"] := by
  intro physical text files sh last
  have hphysical : ∀ line ∈ physical, Text.OneLine line.toList := by
    unfold Text.OneLine
    decide
  have htext : WritesLines text physical :=
    ⟨['\r', '\n'], by decide, .inr (by decide)⟩
  have hpending : last.pendingText = "(K a" := by
    show (sh.afterPassing (typedLines physical)).pendingText = "(K a"
    have htyped : typedLines physical = ["K = (\\x y -> ;; first", ";; (",
        "x) ;; K", "K = K", "(K a"] := by decide
    rw [htyped]
    simp only [afterPassing, pendingText, pending_passOn]
    decide +kernel
  have hpath : '\x00' ∉ "k.lc".toList := by decide
  have hfile : files "k.lc" = some (Text.Utf8.encode text) := rfl
  have hne : last.pendingText ≠ "" := by
    rw [hpending]
    decide
  obtain ⟨-, read, hread, -, hopen⟩ :=
    read_eq_typed hpath hfile hphysical htext sh.session
  have hlines := hopen hne
  rw [hpending] at hlines
  exact ⟨hpending, read, hread, hlines⟩

end Shell

end UntypedLambda
