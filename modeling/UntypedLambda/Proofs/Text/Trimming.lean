import Mathlib.Data.List.Basic
import Mathlib.Data.List.TakeWhile
import UntypedLambda.Text.Blank

/-!
# Blanks around a text

Trimming takes the blanks at an end of a text and nothing else, so a text is
what is left of it between two runs of blanks, and a text that neither starts
nor ends with a blank stays as it is.  The two ends can be trimmed in either
order.

## Main results

* `trimRight_append_eq`: trimming at the end of a text reaches into the front of
  it only if nothing but blanks comes after that.
* `trim_between`: a text is what is left of it between two runs of blanks.
* `trimLeft_trimRight`: the end may be trimmed first.
-/

namespace UntypedLambda.Text

/-- A text that does not start with a blank. -/
def SolidStart (cs : List Char) : Prop := ∀ c, cs.head? = some c → isBlank c = false

/-- A text that does not end with a blank. -/
def SolidEnd (cs : List Char) : Prop :=
  ∀ c, cs.getLast? = some c → isBlank c = false

/-- A text of blanks only. -/
def Blanks (cs : List Char) : Prop := ∀ c ∈ cs, isBlank c = true

/-- What is checked for the characters of a text one after another holds of all. -/
theorem forall_mem_of_all {p : Char → Prop} [DecidablePred p] {cs : List Char}
    (h : (cs.all fun c => decide (p c)) = true) : ∀ c ∈ cs, p c :=
  fun c hc => of_decide_eq_true (List.all_eq_true.1 h c hc)

theorem count_eq_zero_of_blanks {bs : List Char} (h : Blanks bs) {c : Char}
    (hc : isBlank c = false) : bs.count c = 0 := by
  rw [List.count_eq_zero]
  intro hmem
  rw [h c hmem] at hc
  cases hc

theorem trimLeft_of_solidStart {cs : List Char} (h : SolidStart cs) :
    trimLeft cs = cs := by
  cases cs with
  | nil => rfl
  | cons c cs =>
      have hc : isBlank c = false := h c rfl
      rw [trimLeft, List.dropWhile_cons_of_neg (by simp [hc])]

theorem trimRight_of_solidEnd {cs : List Char} (h : SolidEnd cs) :
    trimRight cs = cs := by
  have hrev : trimLeft cs.reverse = cs.reverse :=
    trimLeft_of_solidStart fun c hc => h c (by rwa [List.head?_reverse] at hc)
  rw [trimRight]
  show (trimLeft cs.reverse).reverse = cs
  rw [hrev, List.reverse_reverse]

theorem solidStart_trimLeft (cs : List Char) : SolidStart (trimLeft cs) := by
  intro c hc
  have hhead := List.head?_dropWhile_not isBlank cs
  rw [show cs.dropWhile isBlank = trimLeft cs from rfl, hc] at hhead
  simpa using hhead

theorem solidEnd_trimRight (cs : List Char) : SolidEnd (trimRight cs) := by
  intro c hc
  rw [trimRight, List.getLast?_reverse] at hc
  exact solidStart_trimLeft cs.reverse c hc

theorem trimLeft_blanks_append {bs : List Char} (h : Blanks bs) (cs : List Char) :
    trimLeft (bs ++ cs) = trimLeft cs := by
  rw [trimLeft, List.dropWhile_append_of_pos h]
  rfl

/-- Trimming at the start reaches into the rest of a text only if nothing but blanks
comes before it. -/
theorem trimLeft_append_eq (front rest : List Char) :
    trimLeft (front ++ rest) =
      if trimLeft front = [] then trimLeft rest else trimLeft front ++ rest := by
  unfold trimLeft
  rw [List.dropWhile_append]
  simp

/-- Trimming at the end reaches into the front of a text only if nothing but
blanks comes after it. -/
theorem trimRight_append_eq (front rest : List Char) :
    trimRight (front ++ rest) =
      if trimRight rest = [] then trimRight front else front ++ trimRight rest := by
  unfold trimRight
  rw [List.reverse_append, List.dropWhile_append]
  by_cases hrest : rest.reverse.dropWhile isBlank = []
  · simp [hrest]
  · simp [hrest]

theorem trimRight_eq_nil_of_blanks {bs : List Char} (h : Blanks bs) :
    trimRight bs = [] := by
  have hdrop : bs.reverse.dropWhile isBlank = [] :=
    List.dropWhile_eq_nil_iff.2 fun c hc => h c (List.mem_reverse.1 hc)
  rw [trimRight, hdrop, List.reverse_nil]

theorem trimRight_append_blanks (cs : List Char) {bs : List Char}
    (h : Blanks bs) : trimRight (cs ++ bs) = trimRight cs := by
  rw [trimRight_append_eq, if_pos (trimRight_eq_nil_of_blanks h)]

theorem trimRight_append_of_solidEnd {front : List Char} (h : SolidEnd front)
    (rest : List Char) : trimRight (front ++ rest) = front ++ trimRight rest := by
  rw [trimRight_append_eq]
  split
  · next hrest => rw [hrest, List.append_nil, trimRight_of_solidEnd h]
  · rfl

theorem SolidStart.of_append {cs ds : List Char} (h : SolidStart (cs ++ ds)) :
    SolidStart cs := by
  intro c hc
  refine h c ?_
  rw [List.head?_append, hc]
  rfl

theorem SolidEnd.of_append {cs ds : List Char} (h : SolidEnd (cs ++ ds)) :
    SolidEnd ds := by
  intro c hc
  refine h c ?_
  rw [List.getLast?_append, hc]
  rfl

theorem SolidEnd.append {ds : List Char} (h : SolidEnd ds) (hne : ds ≠ [])
    (cs : List Char) : SolidEnd (cs ++ ds) := by
  intro c hc
  rw [List.getLast?_append_of_ne_nil cs hne] at hc
  exact h c hc

theorem solidStart_trimRight {cs : List Char} (h : SolidStart cs) :
    SolidStart (trimRight cs) := by
  obtain ⟨blanks, -, hcs⟩ := trimRight_append cs
  rw [hcs] at h
  exact h.of_append

/-- A text that starts with no blank is not trimmed away. -/
theorem trimRight_ne_nil {cs : List Char} (h : SolidStart cs) (hne : cs ≠ []) :
    trimRight cs ≠ [] := by
  obtain ⟨blanks, hblanks, hcs⟩ := trimRight_append cs
  obtain ⟨c, rest, rfl⟩ := List.exists_cons_of_ne_nil hne
  intro hnil
  rw [hnil, List.nil_append] at hcs
  have hblank : isBlank c = true := hblanks c (by rw [← hcs]; exact List.mem_cons_self)
  rw [h c rfl] at hblank
  cases hblank

theorem solidStart_trim (cs : List Char) : SolidStart (trim cs) :=
  solidStart_trimRight (solidStart_trimLeft cs)

theorem solidEnd_trim (cs : List Char) : SolidEnd (trim cs) :=
  solidEnd_trimRight (trimLeft cs)

/-- A text with nothing to trim. -/
theorem trim_of_solid {cs : List Char} (hstart : SolidStart cs)
    (hend : SolidEnd cs) : trim cs = cs := by
  rw [trim, trimLeft_of_solidStart hstart, trimRight_of_solidEnd hend]

theorem trimLeft_trimRight (cs : List Char) :
    trimLeft (trimRight cs) = trim cs := by
  have hsplit : cs.takeWhile isBlank ++ trimLeft cs = cs :=
    List.takeWhile_append_dropWhile
  have hblanks : Blanks (cs.takeWhile isBlank) :=
    fun c hc => List.all_eq_true.1 List.all_takeWhile c hc
  calc trimLeft (trimRight cs)
      = trimLeft (trimRight (cs.takeWhile isBlank ++ trimLeft cs)) := by
        rw [hsplit]
    _ = trim cs := by
        rw [trimRight_append_eq]
        split
        · next hnil =>
            rw [trimRight_eq_nil_of_blanks hblanks, trim, hnil]
            rfl
        · rw [trimLeft_blanks_append hblanks]
          exact trimLeft_of_solidStart (solidStart_trim cs)

theorem trim_trimRight (cs : List Char) : trim (trimRight cs) = trim cs := by
  rw [← trimLeft_trimRight, trimRight_of_solidEnd (solidEnd_trimRight cs),
    trimLeft_trimRight]

theorem trimLeft_of_solidEnd {cs : List Char} (h : SolidEnd cs) :
    trimLeft cs = trim cs := by
  rw [← trimLeft_trimRight, trimRight_of_solidEnd h]

/-- Only the start of a text is trimmed if its end is solid. -/
theorem trim_append_of_solidEnd {front rest : List Char}
    (hfront : trimLeft front ≠ []) (hrest : SolidEnd rest) (hne : rest ≠ []) :
    trim (front ++ rest) = trimLeft front ++ rest := by
  rw [trim, trimLeft_append_eq, if_neg hfront,
    trimRight_of_solidEnd (hrest.append hne _)]

theorem trim_blanks_append {bs : List Char} (h : Blanks bs) (cs : List Char) :
    trim (bs ++ cs) = trim cs := by
  rw [trim, trimLeft_blanks_append h, trim]

theorem trim_append_blanks (cs : List Char) {bs : List Char} (h : Blanks bs) :
    trim (cs ++ bs) = trim cs := by
  rw [← trimLeft_trimRight, trimRight_append_blanks cs h, trimLeft_trimRight]

/-- A text is what is left of it after trimming between two runs of blanks. -/
theorem trim_between (cs : List Char) :
    ∃ before after, Blanks before ∧ Blanks after ∧
      cs = before ++ (trim cs ++ after) := by
  obtain ⟨after, hafter, hleft⟩ := trimRight_append (trimLeft cs)
  refine ⟨cs.takeWhile isBlank, after, ?_, hafter, ?_⟩
  · intro c hc
    exact List.all_eq_true.1 List.all_takeWhile c hc
  · have hsplit : cs.takeWhile isBlank ++ trimLeft cs = cs :=
      List.takeWhile_append_dropWhile
    calc cs = cs.takeWhile isBlank ++ trimLeft cs := hsplit.symm
      _ = cs.takeWhile isBlank ++ (trim cs ++ after) :=
          congrArg (cs.takeWhile isBlank ++ ·) hleft

end UntypedLambda.Text
