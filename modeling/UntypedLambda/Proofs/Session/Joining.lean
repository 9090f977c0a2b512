import UntypedLambda.Proofs.Session.Line
import UntypedLambda.Session.Source

/-!
# How physical lines are joined

Of a physical line only its contents matter: the text before its comment, without
the blanks around it.  A logical line is made of the contents of a group of
physical lines in a row, blank ones aside, with a space between any two.  The
group starts with a line that is not blank, goes on for as long as what there is
of it leaves parentheses open, and ends where it does not or the file ends.  The
blank lines between two groups are dropped (`JoinsTo`).

The reader of a file comes to this in another way.  It keeps the line that it is
at with the blanks that the first physical line starts with, joins the next
physical line to it, and looks for a comment in the whole once more.  At every
time the trimmed form of what it keeps is the joined text of the group so far
(`Keeps`).

## Main results

* `Unfinished.trimmed_nextText`: one physical line after an unfinished line.
* `joinsTo_logicalLines`: the reader joins the groups of physical lines.
* `JoinsTo.split`: where in a file a logical line comes from.
-/

namespace UntypedLambda.Session

open Text (trimRight trimRight_append_eq)

/-! ## One physical line -/

/-- The line that the reader of a file is at when it has read a physical line
after an unfinished one, if there is one. -/
def nextText (unfinished : Option String) (physical : String) : String :=
  match unfinished with
  | none => continueLine none physical
  | some before => continueLine (some before) (trimmed physical)

theorem clean_nextText (unfinished : Option String) (physical : String) :
    Clean (nextText unfinished physical).toList := by
  unfold nextText
  split
  · exact clean_continueLine _ _
  · exact clean_continueLine _ _

theorem joinFrom_cons (p : Option Line) (n : Nat) (physical : String)
    (rest : List String) :
    joinFrom p n (physical :: rest) =
      let text := nextText (p.map Line.text) physical
      let first := (p.map Line.number).getD n
      if leavesOpen text then joinFrom (some ⟨text, first⟩) (n + 1) rest
      else if trimmed text = "" then joinFrom none (n + 1) rest
      else ⟨trimmed text, first⟩ :: joinFrom none (n + 1) rest := by
  cases p <;> rfl

/-- What a physical line adds to its logical line. -/
def contents (physical : String) : String := trimmed (clean physical)

theorem trimmed_nextText_none (physical : String) :
    trimmed (nextText none physical) = contents physical := rfl

/-- A blank line changes nothing. -/
theorem joinFrom_blank {p : Option Line} (hp : ∀ line ∈ p, Unfinished line.text)
    (n : Nat) {physical : String} (hblank : trimmed physical = "")
    (rest : List String) :
    joinFrom p n (physical :: rest) = joinFrom p (n + 1) rest := by
  rw [joinFrom_cons]
  cases p with
  | none =>
      have htext : trimmed (nextText none physical) = "" := by
        rw [trimmed_nextText_none, contents, trimmed_clean, hblank]
        rfl
      have hclosed : leavesOpen (nextText none physical) = false := by
        rw [← leavesOpen_trimmed, htext]
        rfl
      simp only [Option.map_none, hclosed, htext, Bool.false_eq_true, if_false,
        if_true]
  | some line =>
      have hline : Unfinished line.text := hp line rfl
      have htext : nextText (some line.text) physical = line.text := by
        rw [nextText, hblank, hline.continueLine_empty]
      simp only [Option.map_some, htext, hline.leavesOpen, if_true,
        Option.getD_some]

/-- An unfinished line is joined to the contents of the next physical line, with
a space in between, unless that is blank. -/
theorem Unfinished.trimmed_nextText {text : String} (h : Unfinished text)
    (physical : String) :
    trimmed (nextText (some text) physical) =
      if contents physical = "" then trimmed text
      else joinLines (trimmed text) (contents physical) := by
  have hcontents : trimRight (dropComment (Text.trim physical.toList)) =
      (contents physical).toList := by
    rw [contents, toList_trimmed, toList_clean, trim_cleanChars, cleanChars]
  have hnext : (nextText (some text) physical).toList =
      text.toList ++
        trimRight ([' '] ++ dropComment (Text.trim physical.toList)) := by
    rw [nextText, continueLine, toList_clean, toList_joinLines,
      h.clean.cleanChars_join, toList_trimmed]
    rfl
  rw [trimRight_append_eq, hcontents] at hnext
  by_cases hempty : contents physical = ""
  · have hspace : trimRight [' '] = [] := by decide
    rw [if_pos (String.toList_eq_nil_iff.2 hempty), hspace, List.append_nil] at hnext
    rw [if_pos hempty, String.toList_injective hnext]
  · have hjoined : nextText (some text) physical =
        joinLines text (contents physical) := by
      apply String.toList_injective
      rw [hnext, if_neg (mt String.toList_eq_nil_iff.1 hempty), toList_joinLines]
      rfl
    rw [if_neg hempty, hjoined]
    exact h.trimmed_joinLines hempty

/-! ## Groups of physical lines -/

/-- The contents of some physical lines, blank ones aside, with spaces in
between. -/
def joinedText (group : List String) : String :=
  " ".intercalate ((group.map contents).filter (· ≠ ""))

theorem intercalate_eq_empty_iff {separator : String} {texts : List String}
    (h : ∀ text ∈ texts, text ≠ "") :
    separator.intercalate texts = "" ↔ texts = [] := by
  cases texts with
  | nil => simp
  | cons text texts =>
      have htext : text ≠ "" := h text List.mem_cons_self
      cases texts <;> simp [htext]

theorem joinedText_eq_empty_iff (group : List String) :
    joinedText group = "" ↔ (group.map contents).filter (· ≠ "") = [] :=
  intercalate_eq_empty_iff (by simp)

/-- What comes after some physical lines is joined to them with a space, unless it
is blank. -/
theorem joinedText_append {front : List String} (hfront : joinedText front ≠ "")
    (rest : List String) :
    joinedText (front ++ rest) =
      if joinedText rest = "" then joinedText front
      else joinLines (joinedText front) (joinedText rest) := by
  rw [joinedText, List.map_append, List.filter_append]
  by_cases hrest : joinedText rest = ""
  · rw [if_pos hrest, (joinedText_eq_empty_iff rest).1 hrest, List.append_nil,
      joinedText]
  · rw [if_neg hrest, String.intercalate_append_of_ne_nil
      (mt (joinedText_eq_empty_iff front).2 hfront)
      (mt (joinedText_eq_empty_iff rest).2 hrest)]
    rfl

theorem joinedText_singleton (physical : String) :
    joinedText [physical] = contents physical := by
  by_cases h : contents physical = "" <;> simp [joinedText, h]

/-- Physical lines that make up a logical line: the first is not blank, and what
comes before any other one leaves parentheses open. -/
structure IsGroup (group : List String) : Prop where
  starts : ∃ first ∈ group.head?, contents first ≠ ""
  goesOn : ∀ front rest, group = front ++ rest → front ≠ [] → rest ≠ [] →
    leavesOpen (joinedText front) = true

/-- Physical lines, the first of which has the number `n`, are joined to logical
lines. -/
inductive JoinsTo : Nat → List String → List Line → Prop where
  | nil (n : Nat) : JoinsTo n [] []
  | blank {n : Nat} {physical : String} {rest : List String} {lines : List Line}
      (hblank : contents physical = "") (hrest : JoinsTo (n + 1) rest lines) :
      JoinsTo n (physical :: rest) lines
  | line {n : Nat} {group rest : List String} {lines : List Line}
      (hgroup : IsGroup group) (hclosed : leavesOpen (joinedText group) = false)
      (hrest : JoinsTo (n + group.length) rest lines) :
      JoinsTo n (group ++ rest) (⟨joinedText group, n⟩ :: lines)
  | unclosed {n : Nat} {group : List String} (hgroup : IsGroup group)
      (hopen : leavesOpen (joinedText group) = true) :
      JoinsTo n group [⟨joinedText group, n⟩]

/-- What the reader keeps after a part of a group: the joined text of this, but
for the blanks that it starts with, numbered by the first line. -/
inductive Keeps (n : Nat) : List String → Option Line → Prop where
  | none : Keeps n [] none
  | some {group : List String} {text : String} (htext : Unfinished text)
      (htrimmed : trimmed text = joinedText group) (hgroup : IsGroup group) :
      Keeps n group (some ⟨text, n⟩)

theorem Keeps.trimmed_nextText {n : Nat} {group : List String} {p : Option Line}
    (h : Keeps n group p) (physical : String) :
    trimmed (nextText (p.map Line.text) physical) =
      joinedText (group ++ [physical]) := by
  cases h with
  | none => exact (joinedText_singleton physical).symm
  | @some _ text htext htrimmed hgroup =>
      have hne : joinedText group ≠ "" := htrimmed ▸ htext.ne_empty
      rw [Option.map_some, htext.trimmed_nextText, htrimmed, joinedText_append hne,
        joinedText_singleton]

/-- The text so far is empty only before a group starts. -/
theorem Keeps.eq_nil_of_empty {n : Nat} {group : List String} {p : Option Line}
    (h : Keeps n group p) {physical : String}
    (hempty : joinedText (group ++ [physical]) = "") :
    group = [] ∧ contents physical = "" := by
  cases h with
  | none => exact ⟨rfl, joinedText_singleton physical ▸ hempty⟩
  | @some _ text htext htrimmed hgroup =>
      have hne : joinedText group ≠ "" := htrimmed ▸ htext.ne_empty
      rw [joinedText_append hne] at hempty
      split at hempty
      · exact absurd hempty hne
      · simp [joinLines] at hempty

theorem Keeps.isGroup_concat {n : Nat} {group : List String} {p : Option Line}
    (h : Keeps n group p) {physical : String}
    (hne : joinedText (group ++ [physical]) ≠ "") :
    IsGroup (group ++ [physical]) := by
  cases h with
  | none =>
      rw [List.nil_append, joinedText_singleton] at hne
      refine ⟨⟨physical, rfl, hne⟩, fun front rest hsplit hfront hrest => ?_⟩
      cases front with
      | nil => exact absurd rfl hfront
      | cons l front =>
          obtain ⟨-, hempty⟩ := List.cons.inj hsplit
          exact absurd (List.append_eq_nil_iff.1 hempty.symm).2 hrest
  | @some _ text htext htrimmed hgroup =>
      obtain ⟨⟨first, hfirst, hcontents⟩, hgoesOn⟩ := hgroup
      refine ⟨⟨first, ?_, hcontents⟩, fun front rest hsplit hfront hrest => ?_⟩
      · rw [Option.mem_def] at hfirst ⊢
        rw [List.head?_append, hfirst]
        rfl
      · -- all but the last line are the group so far or a part of it
        obtain ⟨rest', last, rfl⟩ := (List.eq_nil_or_concat' rest).resolve_left hrest
        rw [← List.append_assoc] at hsplit
        obtain ⟨rfl, -⟩ := List.append_inj' hsplit rfl
        by_cases hrest' : rest' = []
        · subst hrest'
          rw [List.append_nil] at htrimmed
          rw [← htrimmed, leavesOpen_trimmed]
          exact htext.leavesOpen
        · exact hgoesOn front rest' rfl hfront hrest'

/-- **The reader joins the groups of physical lines**, from any part of a group
on. -/
theorem joinsTo_joinFrom {n : Nat} {group : List String} {p : Option Line}
    (h : Keeps n group p) (physical : List String) :
    JoinsTo n (group ++ physical) (joinFrom p (n + group.length) physical) := by
  induction physical generalizing n group p with
  | nil =>
      cases h with
      | none => exact .nil n
      | @some _ text htext htrimmed hgroup =>
          rw [List.append_nil]
          show JoinsTo n group [⟨trimmed text, n⟩]
          rw [htrimmed]
          refine .unclosed hgroup ?_
          rw [← htrimmed, leavesOpen_trimmed, htext.leavesOpen]
  | cons l rest ih =>
      have hnext := h.trimmed_nextText l
      have hclean := clean_nextText (p.map Line.text) l
      have hfirst : (p.map Line.number).getD (n + group.length) = n := by
        cases h <;> rfl
      have hsplit : group ++ l :: rest = (group ++ [l]) ++ rest :=
        List.append_cons group l rest
      have hlength : n + group.length + 1 = n + (group ++ [l]).length := by
        simp [Nat.add_assoc]
      rw [joinFrom_cons, hfirst]
      generalize nextText (p.map Line.text) l = text at hnext hclean ⊢
      have hopen : leavesOpen text = leavesOpen (joinedText (group ++ [l])) := by
        rw [← hnext, leavesOpen_trimmed]
      dsimp only
      rw [hnext, hopen]
      by_cases hunfinished : leavesOpen (joinedText (group ++ [l])) = true
      · have htext : Unfinished text := ⟨hclean, hopen.trans hunfinished⟩
        have hgroup := h.isGroup_concat (hnext ▸ htext.ne_empty)
        rw [if_pos hunfinished, hsplit, hlength]
        exact ih (.some htext hnext hgroup)
      · rw [if_neg hunfinished]
        by_cases hempty : joinedText (group ++ [l]) = ""
        · obtain ⟨rfl, hblank⟩ := h.eq_nil_of_empty hempty
          rw [if_pos hempty]
          exact .blank hblank (ih .none)
        · rw [if_neg hempty, hsplit]
          have hclosed := Bool.eq_false_iff.2 hunfinished
          refine .line (h.isGroup_concat hempty) hclosed ?_
          rw [hlength]
          exact ih .none

theorem joinsTo_logicalLines (physical : List String) :
    JoinsTo 1 physical (logicalLines physical) :=
  joinsTo_joinFrom .none physical

/-! ## Where a logical line comes from -/

/-- A logical line is made of a group of physical lines, which comes after those
that the logical lines `front` are made of.  If the line leaves parentheses open,
then the group is the last one. -/
structure MadeOf (n : Nat) (physical : List String) (front : List Line)
    (line : Line) (before group after : List String) : Prop where
  split : physical = before ++ (group ++ after)
  front : JoinsTo n before front
  isGroup : IsGroup group
  text : line.text = joinedText group
  number : line.number = n + before.length
  unclosed : leavesOpen line.text = true → after = []

/-- Every logical line comes from somewhere. -/
theorem JoinsTo.split {n : Nat} {physical : List String} {lines : List Line}
    (h : JoinsTo n physical lines) {front : List Line} {line : Line}
    {rest : List Line} (hlines : lines = front ++ line :: rest) :
    ∃ before group after, MadeOf n physical front line before group after := by
  induction h generalizing front with
  | nil n =>
      cases front <;> cases hlines
  | @blank n p _ _ hblank _ ih =>
      obtain ⟨before, group, after, hmade⟩ := ih hlines
      refine ⟨p :: before, group, after,
        { hmade with
          split := congrArg (p :: ·) hmade.split
          front := .blank hblank hmade.front
          number := ?_ }⟩
      rw [hmade.number, List.length_cons]
      omega
  | @line n group₀ physical _ hgroup hclosed _ ih =>
      cases front with
      | nil =>
          cases hlines
          refine ⟨[], group₀, physical, rfl, .nil n, hgroup, rfl, rfl, fun hopen => ?_⟩
          exact absurd hopen (Bool.eq_false_iff.1 hclosed)
      | cons first front =>
          obtain ⟨rfl, hrest⟩ := List.cons.inj hlines
          obtain ⟨before, group, after, hmade⟩ := ih hrest
          refine ⟨group₀ ++ before, group, after,
            { hmade with
              split := ?_
              front := .line hgroup hclosed hmade.front
              number := ?_ }⟩
          · rw [hmade.split, List.append_assoc]
          · rw [hmade.number, List.length_append]
            omega
  | @unclosed n group₀ hgroup hopen =>
      cases front with
      | nil =>
          cases hlines
          exact ⟨[], group₀, [], (List.append_nil group₀).symm, .nil n, hgroup, rfl,
            rfl, fun _ => rfl⟩
      | cons first front => cases front <;> cases hlines

end UntypedLambda.Session
