import UntypedLambda.Proofs.Session.Joining
import UntypedLambda.Proofs.Session.Source

/-!
# Reading a file keeps its text

The logical lines of a file hold the contents of its physical lines, each once and
in order.  A group of physical lines is one logical line, what is blank between two
groups has no contents, and joining the contents group by group comes to joining
them all (`JoinsTo.joinedText_eq`).

Where the groups are is told by the relation `JoinsTo`; what the text of a logical
line looks like is told by the reader, which cleans it as a whole and then trims
it.

## Main results

* `JoinsTo.joinedText_eq`: the logical lines hold the text of the physical ones.
* `exists_clean_of_mem_logicalLines`: a logical line is a trimmed clean line.
* `JoinsTo.numbers_increase`, `JoinsTo.last_of_leavesOpen`: the numbers of the lines,
  and the only line that can leave parentheses open.
* `reading_keeps_text`: all of it, for files.
-/

namespace UntypedLambda.Session

/-! ## The text of all lines -/

/-- The contents of a physical line are what stands before its first comment mark,
without the blanks around it. -/
theorem contents_eq (physical : String) :
    contents physical = String.ofList (Text.trim (dropComment physical.toList)) := by
  apply String.toList_injective
  rw [contents, toList_trimmed, toList_clean, cleanChars, Text.trim_trimRight,
    String.toList_ofList]

theorem IsGroup.joinedText_ne_empty {group : List String} (h : IsGroup group) :
    joinedText group ≠ "" := by
  obtain ⟨⟨first, hfirst, hne⟩, -⟩ := h
  have hmem : contents first ∈ (group.map contents).filter (· ≠ "") := by
    rw [List.mem_filter]
    exact ⟨List.mem_map_of_mem (List.mem_of_mem_head? hfirst), by simpa using hne⟩
  rw [ne_eq, joinedText_eq_empty_iff]
  exact List.ne_nil_of_mem hmem

theorem JoinsTo.text_ne_empty {n : Nat} {physical : List String}
    {lines : List Line} (h : JoinsTo n physical lines) :
    ∀ line ∈ lines, line.text ≠ "" := by
  induction h with
  | nil n => simp
  | blank _ _ ih => exact ih
  | line hgroup _ _ ih =>
      rw [List.forall_mem_cons]
      exact ⟨hgroup.joinedText_ne_empty, ih⟩
  | unclosed hgroup _ =>
      rw [List.forall_mem_singleton]
      exact hgroup.joinedText_ne_empty

/-- **The logical lines hold the text of the physical ones**: nothing is lost and
nothing is said twice. -/
theorem JoinsTo.joinedText_eq {n : Nat} {physical : List String}
    {lines : List Line} (h : JoinsTo n physical lines) :
    " ".intercalate (lines.map Line.text) = joinedText physical := by
  induction h with
  | nil n => rfl
  | @blank n p rest lines hblank _ ih =>
      rw [ih]
      simp [joinedText, hblank]
  | @line n group rest lines hgroup _ hrest ih =>
      rw [List.map_cons, joinedText_append hgroup.joinedText_ne_empty]
      -- a space comes after the group only if there is another line
      have hempty : joinedText rest = "" ↔ lines.map Line.text = [] := by
        rw [← ih, intercalate_eq_empty_iff]
        simpa using hrest.text_ne_empty
      split
      · next hnone => rw [hempty.1 hnone, String.intercalate_singleton]
      · next hsome =>
          rw [String.intercalate_cons_of_ne_nil (mt hempty.2 hsome), ih]
          rfl
  | unclosed _ _ => exact String.intercalate_singleton

/-! ## The text of one line -/

/-- Every line that the reader gives is the trimmed form of a line that it has
cleaned. -/
theorem exists_clean_of_mem_joinFrom {p : Option Line}
    (hp : ∀ line ∈ p, Clean line.text.toList) (n : Nat) (physical : List String) :
    ∀ line ∈ joinFrom p n physical,
      ∃ text, Clean text.toList ∧ line.text = trimmed text := by
  induction physical generalizing p n with
  | nil =>
      intro line hline
      obtain ⟨pending, hpending, rfl⟩ := List.mem_map.1 hline
      exact ⟨pending.text, hp pending (Option.mem_toList.1 hpending), rfl⟩
  | cons l rest ih =>
      have hclean := clean_nextText (p.map Line.text) l
      have hnone : ∀ line ∈ joinFrom none (n + 1) rest,
          ∃ text, Clean text.toList ∧ line.text = trimmed text := ih (by simp) (n + 1)
      rw [joinFrom_cons]
      dsimp only
      split
      · exact ih (by simpa using hclean) (n + 1)
      · split
        · exact hnone
        · rw [List.forall_mem_cons]
          exact ⟨⟨_, hclean, rfl⟩, hnone⟩

theorem exists_clean_of_mem_logicalLines {physical : List String} {line : Line}
    (h : line ∈ logicalLines physical) :
    ∃ text, Clean text.toList ∧ line.text = trimmed text :=
  exists_clean_of_mem_joinFrom (by simp) 1 physical line h

/-- Trimming makes no comment. -/
theorem Clean.not_commentMark_trimmed {text : String} (h : Clean text.toList) :
    ¬ commentMark <:+: (trimmed text).toList := by
  intro hmark
  obtain ⟨before, after, -, -, hsplit⟩ := Text.trim_between text.toList
  rw [toList_trimmed] at hmark
  refine h.noComment (hmark.trans ⟨before, after, ?_⟩)
  rw [List.append_assoc]
  exact hsplit.symm

/-! ## Numbers and open parentheses -/

theorem IsGroup.length_pos {group : List String} (h : IsGroup group) :
    0 < group.length := by
  obtain ⟨⟨first, hfirst, -⟩, -⟩ := h
  exact List.length_pos_of_mem (List.mem_of_mem_head? hfirst)

theorem JoinsTo.le_number {n : Nat} {physical : List String} {lines : List Line}
    (h : JoinsTo n physical lines) : ∀ line ∈ lines, n ≤ line.number := by
  induction h with
  | nil n => simp
  | blank _ _ ih => exact fun line hline => Nat.le_of_succ_le (ih line hline)
  | line _ _ _ ih =>
      rw [List.forall_mem_cons]
      exact ⟨Nat.le_refl _, fun line hline => Nat.le_of_add_right_le (ih line hline)⟩
  | unclosed _ _ => rw [List.forall_mem_singleton]

/-- Later lines have larger numbers. -/
theorem JoinsTo.numbers_increase {n : Nat} {physical : List String}
    {lines : List Line} (h : JoinsTo n physical lines) :
    lines.Pairwise fun line later => line.number < later.number := by
  induction h with
  | nil n => exact .nil
  | blank _ _ ih => exact ih
  | line hgroup _ hrest ih =>
      refine .cons (fun later hlater => ?_) ih
      have hle := hrest.le_number later hlater
      have hpos := hgroup.length_pos
      dsimp only
      omega
  | unclosed _ _ => exact List.pairwise_singleton _ _

/-- Only the last line can leave parentheses open. -/
theorem JoinsTo.last_of_leavesOpen {n : Nat} {physical : List String}
    {lines : List Line} (h : JoinsTo n physical lines) {front : List Line}
    {line : Line} {rest : List Line} (hlines : lines = front ++ line :: rest)
    (hopen : leavesOpen line.text = true) : rest = [] := by
  induction h generalizing front with
  | nil n => cases front <;> cases hlines
  | blank _ _ ih => exact ih hlines
  | line _ hclosed _ ih =>
      cases front with
      | nil =>
          cases hlines
          rw [hclosed] at hopen
          cases hopen
      | cons first front => exact ih (List.cons.inj hlines).2
  | unclosed _ _ =>
      cases front with
      | nil =>
          cases hlines
          rfl
      | cons first front => cases front <;> cases hlines

/-! ## Files -/

/-- **Reading a file keeps its text and ends each line at the right place.**  The
contents of a physical line are what stands before its first comment mark, without
the blanks around it.  The logical lines, joined with spaces, are the contents of
all physical lines, blank ones aside, joined with spaces.  No logical line is
empty, has blanks around it or holds a comment mark.  Each is made of a group of
physical lines and numbered by the first of them, which is not blank, and the
numbers increase.  In a group, what comes before any other line leaves parentheses
open; as a whole only the last logical line can. -/
theorem reading_keeps_text (physical : List String) :
    let lines := logicalLines physical
    (∀ (files : Files) path text, '\x00' ∉ path.toList →
        files path = some (Text.Utf8.encode text) →
        (Text.lines text).map String.ofList = physical →
        readLines files path = .ok lines) ∧
      " ".intercalate (lines.map Line.text) =
        " ".intercalate ((physical.map fun l =>
          String.ofList (Text.trim (dropComment l.toList))).filter (· ≠ "")) ∧
      (∀ line ∈ lines, line.text ≠ "" ∧ trimmed line.text = line.text ∧
        ¬ commentMark <:+: line.text.toList) ∧
      (lines.Pairwise fun line later => line.number < later.number) ∧
      ∀ front line rest, lines = front ++ line :: rest →
        (∃ before group after, MadeOf 1 physical front line before group after) ∧
          (leavesOpen line.text = true → rest = []) := by
  intro lines
  have hjoins : JoinsTo 1 physical lines := joinsTo_logicalLines physical
  refine ⟨?_, ?_, ?_, hjoins.numbers_increase, ?_⟩
  · rintro files path text hpath hfile rfl
    exact readLines_encode hpath hfile
  · rw [hjoins.joinedText_eq, joinedText]
    simp only [funext contents_eq]
  · intro line hline
    obtain ⟨text, hclean, htext⟩ := exists_clean_of_mem_logicalLines hline
    refine ⟨hjoins.text_ne_empty line hline, ?_, ?_⟩
    · rw [htext, trimmed_trimmed]
    · rw [htext]
      exact hclean.not_commentMark_trimmed
  · intro front line rest hlines
    exact ⟨hjoins.split hlines, hjoins.last_of_leavesOpen hlines⟩

/-- The first line is made of four physical lines, of which the second is blank and
the third is a comment with a parenthesis; the file ends within the last line. -/
theorem reading_keeps_text_unclosed :
    let text := "(f ;; (\r\n\r\n;; x)\r\n  x)  ;; y\r\n\r\ny\r\n ((z\r\n;; )".toList
    let files : Files := fun _ => some (Text.Utf8.encode text)
    let lines : List Line := [⟨"(f x)", 1⟩, ⟨"y", 6⟩, ⟨"((z", 7⟩]
    readLines files "f.lc" = .ok lines ∧
      " ".intercalate (lines.map Line.text) = "(f x) y ((z" ∧
      ∃ before group, MadeOf 1 ((Text.lines text).map String.ofList)
        [⟨"(f x)", 1⟩, ⟨"y", 6⟩] ⟨"((z", 7⟩ before group [] := by
  intro text files lines
  have hlines : logicalLines ((Text.lines text).map String.ofList) = lines := by
    decide +kernel
  obtain ⟨hread, hjoined, -, -, hsplit⟩ :=
    reading_keeps_text ((Text.lines text).map String.ofList)
  rw [hlines] at hread hjoined hsplit
  obtain ⟨⟨before, group, after, hmade⟩, -⟩ :=
    hsplit [⟨"(f x)", 1⟩, ⟨"y", 6⟩] ⟨"((z", 7⟩ [] rfl
  obtain rfl := hmade.unclosed (by decide)
  exact ⟨hread files "f.lc" text (by decide) rfl rfl, hjoined, before, group, hmade⟩

end UntypedLambda.Session
