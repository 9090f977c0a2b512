import UntypedLambda.Proofs.Session.Line
import UntypedLambda.Proofs.Text.Encoding
import UntypedLambda.Session.Source

/-!
# Reading a file back

A file is made of some lines by writing each of them with a line end after it
and encoding the text; the line end of the last one may be left out.  Reading
such a file finds these lines again, except for an empty last line that has no
line end, and goes on to join them.

## Main results

* `lines_fileText_append`: the lines of a text that is made of lines.
* `readLines_eq`: what is read from a file that is made of lines.
-/

namespace UntypedLambda

namespace Text

/-- The ways to end a line. -/
def lineEnds : List (List Char) := [['\n'], ['\r', '\n'], ['\r']]

/-- A text of lines that end in the same way. -/
def fileText (ending : List Char) (ls : List (List Char)) : List Char :=
  ls.flatMap fun l => l ++ ending

/-- A text without line ends. -/
def OneLine (cs : List Char) : Prop := '\n' ∉ cs ∧ '\r' ∉ cs

theorem oneLine_cons {c : Char} {cs : List Char} :
    OneLine (c :: cs) ↔ (c ≠ '\n' ∧ c ≠ '\r') ∧ OneLine cs := by
  unfold OneLine
  rw [List.mem_cons, List.mem_cons, not_or, not_or, ← ne_eq, ← ne_eq,
    ne_comm, ne_comm (a := '\r')]
  exact and_and_and_comm

theorem lines_cons {c : Char} (hc : c ≠ '\n' ∧ c ≠ '\r') (rest : List Char) :
    lines (c :: rest) = consLine c (lines rest) := by
  rw [lines]
  · exact fun _ h => absurd h hc.2
  · exact hc.2
  · exact hc.1

/-- A line end ends a line, if what comes next does not make another one of
it. -/
theorem lines_end {ending : List Char} (hend : ending ∈ lineEnds)
    {rest : List Char} (hrest : ending = ['\r'] → '\n' ∉ rest) :
    lines (ending ++ rest) = [] :: lines rest := by
  simp only [lineEnds, List.mem_cons, List.not_mem_nil, or_false] at hend
  rcases hend with rfl | rfl | rfl
  · rw [List.singleton_append, lines]
  · rw [List.cons_append, List.singleton_append, lines]
  · rw [List.singleton_append, lines]
    rintro rest' rfl
    exact hrest rfl List.mem_cons_self

theorem lines_line_append {ending : List Char} (hend : ending ∈ lineEnds)
    {l : List Char} (hl : OneLine l) {rest : List Char}
    (hrest : ending = ['\r'] → '\n' ∉ rest) :
    lines (l ++ (ending ++ rest)) = l :: lines rest := by
  induction l with
  | nil => exact lines_end hend hrest
  | cons c l ih =>
      obtain ⟨hc, hl⟩ := oneLine_cons.1 hl
      rw [List.cons_append, lines_cons hc, ih hl]
      rfl

theorem lines_oneLine {l : List Char} (hl : OneLine l) :
    lines l = if l = [] then [] else [l] := by
  induction l with
  | nil => rfl
  | cons c l ih =>
      obtain ⟨hc, hl⟩ := oneLine_cons.1 hl
      rw [lines_cons hc, ih hl, if_neg (List.cons_ne_nil c l)]
      by_cases hnil : l = []
      · subst hnil
        rfl
      · rw [if_neg hnil]
        rfl

theorem not_mem_fileText {ls : List (List Char)} (hls : ∀ l ∈ ls, OneLine l) :
    '\n' ∉ fileText ['\r'] ls := by
  simp only [fileText, List.mem_flatMap, List.mem_append, List.mem_singleton]
  rintro ⟨l, hl, hmem | hmem⟩
  · exact (hls l hl).1 hmem
  · exact absurd hmem (by decide)

/-- **The lines of a text that is made of lines** are these, and the last one
that has no line end if it is not empty. -/
theorem lines_fileText_append {ending : List Char} (hend : ending ∈ lineEnds)
    {ls : List (List Char)} (hls : ∀ l ∈ ls, OneLine l) {last : List Char}
    (hlast : OneLine last) :
    lines (fileText ending ls ++ last) =
      ls ++ if last = [] then [] else [last] := by
  induction ls with
  | nil => exact lines_oneLine hlast
  | cons l ls ih =>
      rw [List.forall_mem_cons] at hls
      have hrest : ending = ['\r'] → '\n' ∉ fileText ending ls ++ last := by
        rintro rfl hmem
        rw [List.mem_append] at hmem
        exact hmem.elim (not_mem_fileText hls.2) hlast.1
      have hsplit : fileText ending (l :: ls) ++ last =
          l ++ (ending ++ (fileText ending ls ++ last)) := by
        simp only [fileText, List.flatMap_cons, List.append_assoc]
      rw [hsplit, lines_line_append hend hls.1 hrest, ih hls.2,
        List.cons_append]

/-- Leaving out the line end of the last line, if there is one, leaves lines with
line ends and a text without. -/
theorem eq_fileText_append {ending text : List Char} {ls : List (List Char)}
    (hend : ending ∈ lineEnds) (h : text ++ ending = fileText ending ls) :
    ∃ front last, ls = front ++ [last] ∧ text = fileText ending front ++ last := by
  rcases List.eq_nil_or_concat' ls with rfl | ⟨front, last, rfl⟩
  · obtain ⟨-, rfl⟩ := List.append_eq_nil_iff.1 h
    exact absurd hend (by decide)
  · refine ⟨front, last, rfl, ?_⟩
    rw [fileText, List.flatMap_append, List.flatMap_singleton,
      ← List.append_assoc] at h
    exact List.append_cancel_right h

end Text

namespace Session

open Text (OneLine fileText lineEnds)

/-- What is written in a file with some lines: the lines, each with a line end,
or all but the last one with a line end. -/
def WritesLines (text : List Char) (physical : List String) : Prop :=
  ∃ ending ∈ lineEnds,
    text = fileText ending (physical.map String.toList) ∨
      text ++ ending = fileText ending (physical.map String.toList)

/-- A file that is encoded well can be read. -/
theorem readLines_encode {files : Files} {path : String} {text : List Char}
    (hpath : '\x00' ∉ path.toList)
    (hfile : files path = some (Text.Utf8.encode text)) :
    readLines files path =
      .ok (logicalLines ((Text.lines text).map String.ofList)) := by
  simp only [readLines, List.contains_eq_mem, hpath, decide_false,
    Bool.false_eq_true, if_false, hfile, Text.Utf8.decode_encode]

/-- **What is read from a file that is made of lines** are the logical lines of
these, of which an empty last one may be left out. -/
theorem readLines_eq {files : Files} {path : String} {text : List Char}
    {physical : List String} (hpath : '\x00' ∉ path.toList)
    (hfile : files path = some (Text.Utf8.encode text))
    (hphysical : ∀ line ∈ physical, OneLine line.toList)
    (htext : WritesLines text physical) :
    ∃ found, readLines files path = .ok (logicalLines found) ∧
      (found = physical ∨ physical = found ++ [""]) := by
  rw [readLines_encode hpath hfile]
  have hlines : ∀ l ∈ physical.map String.toList, OneLine l := by
    simpa using hphysical
  refine ⟨_, rfl, ?_⟩
  obtain ⟨ending, hend, hwhole | hpart⟩ := htext
  · have hempty : OneLine [] := by simp [OneLine]
    have hfound := Text.lines_fileText_append hend hlines hempty
    left
    rw [List.append_nil, ← hwhole] at hfound
    rw [hfound]
    simp
  · obtain ⟨front, last, hfront, rfl⟩ := Text.eq_fileText_append hend hpart
    rw [hfront, List.forall_mem_append, List.forall_mem_singleton] at hlines
    rw [Text.lines_fileText_append hend hlines.1 hlines.2]
    have hphys : physical =
        front.map String.ofList ++ [String.ofList last] := by
      have hmap := congrArg (List.map String.ofList) hfront
      simpa using hmap
    by_cases hnil : last = []
    · right
      rw [hphys, if_pos hnil, hnil, List.append_nil]
    · left
      rw [hphys, if_neg hnil, List.map_append, List.map_singleton]

end Session

end UntypedLambda
