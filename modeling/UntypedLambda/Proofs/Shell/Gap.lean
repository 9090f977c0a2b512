import UntypedLambda.Proofs.Grammar.Spacing
import UntypedLambda.Proofs.Session.Definition
import UntypedLambda.Proofs.Session.Routing
import UntypedLambda.Shell

/-!
# A space after a word of the shell

When a line starts with a word that is a command of the shell and goes on, then
the shell passes it on with one space after the word, whatever stood there before:
other blanks or nothing at all (`Gap`).  The two lines are read in the same way,
up to the end: neither cleaning nor trimming them nor cutting them in two can tell
the one from the other (`Spaced`), they have the same tokens, and so they are the
same term or define the same name as the same term.

This needs that the text after the word does not go on a name, because that name
would be cut in two.

## Main results

* `Spaced.cleanChars`, `Spaced.trim`: cleaning and trimming.
* `Spaced.parse_iff`: the term that is read.
* `Gap.cut_alike`: cutting at the first equals sign.
* `Spaced.defines_iff`: the definition that is taken up.
-/

namespace UntypedLambda.Shell

open Grammar (Apart ValidName continuesName isNameChar)
open Session
open Text (Blanks SolidStart SolidEnd isBlank)

/-- The words that are commands of the shell when they stand alone. -/
def shellWords : List String := ["help", "exit", "EOF"]

/-- The words are not empty, and none of their characters means anything by
itself. -/
theorem shellWords_plain : ∀ w ∈ shellWords, w.toList ≠ [] ∧
    ∀ c ∈ w.toList, isBlank c = false ∧ c ∉ [';', '-', ':', '='] := by
  intro w hw
  simp only [shellWords, List.mem_cons, List.not_mem_nil, or_false] at hw
  rcases hw with rfl | rfl | rfl
  · exact ⟨by decide, Text.forall_mem_of_all (by decide)⟩
  · exact ⟨by decide, Text.forall_mem_of_all (by decide)⟩
  · exact ⟨by decide, Text.forall_mem_of_all (by decide)⟩

/-- A text that ends with a word of the shell, and after some blanks or none
another text that does not go on a name. -/
structure Gap (front gap back : List Char) : Prop where
  word : ∃ w ∈ shellWords, w.toList <:+ front
  blanks : Blanks gap
  stops : ∀ c more, gap ++ back = c :: more → continuesName c more = false
  ne_nil : back ≠ []
  solid : SolidStart back

/-- A text with a space after a word of the shell in place of what blanks there
are, or the text itself. -/
inductive Spaced : List Char → List Char → Prop where
  | same (cs : List Char) : Spaced cs cs
  | gap {front gap back : List Char} (h : Gap front gap back) :
      Spaced (front ++ (gap ++ back)) (front ++ ([' '] ++ back))

namespace Gap

variable {front gap back : List Char}

theorem last (h : Gap front gap back) :
    ∃ init c, front = init ++ [c] ∧ isBlank c = false ∧ c ∉ [';', '-', ':', '='] := by
  obtain ⟨w, hw, init, hfront⟩ := h.word
  obtain ⟨hne, hchars⟩ := shellWords_plain w hw
  refine ⟨init ++ w.toList.dropLast, w.toList.getLast hne, ?_,
    hchars _ (List.getLast_mem hne)⟩
  rw [List.append_assoc, List.dropLast_append_getLast hne, hfront]

theorem solidEnd (h : Gap front gap back) : SolidEnd front := by
  obtain ⟨init, c, rfl, hc, -⟩ := h.last
  intro d hd
  rw [List.getLast?_concat] at hd
  cases hd
  exact hc

theorem getLast?_ne (h : Gap front gap back) {c : Char} (hc : c ∈ [';', '-', ':', '=']) :
    front.getLast? ≠ some c := by
  obtain ⟨init, d, rfl, -, hd⟩ := h.last
  rw [List.getLast?_concat]
  rintro ⟨⟩
  exact hd hc

theorem front_ne_nil (h : Gap front gap back) : front ≠ [] := by
  obtain ⟨init, c, rfl, -⟩ := h.last
  simp

/-- A space may stand in place of the blanks. -/
theorem single (h : Gap front gap back) : Gap front [' '] back := by
  refine ⟨h.word, List.forall_mem_singleton.2 (by decide), ?_, h.ne_nil, h.solid⟩
  rintro c more ⟨⟩
  rfl

theorem apart (h : Gap front gap back) : Apart front (gap ++ back) :=
  ⟨h.stops, fun hlast => absurd hlast (h.getLast?_ne (by decide))⟩

theorem append_left (h : Gap front gap back) (pre : List Char) :
    Gap (pre ++ front) gap back := by
  obtain ⟨w, hw, hsuffix⟩ := h.word
  exact ⟨⟨w, hw, hsuffix.trans (List.suffix_append pre front)⟩, h.blanks, h.stops,
    h.ne_nil, h.solid⟩

/-- What stands before a character that is in no word may be dropped. -/
theorem of_append {before after : List Char} {c : Char}
    (h : Gap (before ++ c :: after) gap back)
    (hc : isBlank c = true ∨ c ∈ [';', '-', ':', '=']) : Gap after gap back := by
  obtain ⟨w, hw, hsuffix⟩ := h.word
  obtain ⟨hne, hchars⟩ := shellWords_plain w hw
  have hnot : c ∉ w.toList := by
    intro hmem
    obtain ⟨hsolid, hplain⟩ := hchars c hmem
    rcases hc with hblank | hmark
    · rw [hsolid] at hblank
      cases hblank
    · exact hplain hmark
  refine ⟨⟨w, hw, ?_⟩, h.blanks, h.stops, h.ne_nil, h.solid⟩
  rcases List.suffix_or_suffix_of_suffix hsuffix (List.suffix_append before (c :: after))
    with hshort | hlong
  · rcases List.suffix_cons_iff.1 hshort with heq | hafter
    · rw [heq] at hnot
      exact absurd List.mem_cons_self hnot
    · exact hafter
  · exact absurd (hlong.subset List.mem_cons_self) hnot

/-- Trimming at the start leaves the word alone. -/
theorem trimLeft (h : Gap front gap back) :
    ∃ front', Gap front' gap back ∧
      ∀ rest, Text.trimLeft (front ++ rest) = front' ++ rest := by
  obtain ⟨w, hw, init, rfl⟩ := h.word
  obtain ⟨hne, hchars⟩ := shellWords_plain w hw
  have hstart : ∀ rest, SolidStart (w.toList ++ rest) := by
    intro rest c hc
    rw [List.head?_append_of_ne_nil _ hne] at hc
    exact (hchars c (List.mem_of_mem_head? hc)).1
  have hword : Gap w.toList gap back :=
    ⟨⟨w, hw, List.suffix_rfl⟩, h.blanks, h.stops, h.ne_nil, h.solid⟩
  by_cases hinit : Text.trimLeft init = []
  · refine ⟨w.toList, hword, fun rest => ?_⟩
    rw [List.append_assoc, Text.trimLeft_append_eq, if_pos hinit,
      Text.trimLeft_of_solidStart (hstart rest)]
  · refine ⟨Text.trimLeft init ++ w.toList, hword.append_left _, fun rest => ?_⟩
    rw [List.append_assoc, Text.trimLeft_append_eq, if_neg hinit, List.append_assoc]

/-- The text after the word may be cut, but not between a dash and the rest of an
arrow. -/
theorem cut {rest : List Char} (h : Gap front gap (back ++ rest)) (hne : back ≠ [])
    (hrest : rest.head? ≠ some '>') : Gap front gap back := by
  refine ⟨h.word, h.blanks, ?_, hne, h.solid.of_append⟩
  intro c more hcons
  have hstops := h.stops c (more ++ rest) (by
    rw [← List.append_assoc, hcons, List.cons_append])
  rw [Bool.eq_false_iff, ne_eq, Grammar.continuesName_eq_true_iff] at hstops ⊢
  rintro ⟨hc, hdash⟩
  refine hstops ⟨hc, fun heq hhead => ?_⟩
  cases more with
  | nil => exact hrest hhead
  | cons d more => exact hdash heq hhead

/-- A text with a word and something apart from it is no name. -/
theorem not_validName (h : Gap front gap back) :
    ¬ ValidName (String.ofList (front ++ (gap ++ back))) := by
  rintro ⟨-, hchars⟩
  rw [String.toList_ofList] at hchars
  cases hrest : gap ++ back with
  | nil => exact h.ne_nil (List.append_eq_nil_iff.1 hrest).2
  | cons c more =>
      rw [hrest] at hchars
      have hc : isNameChar c = true := hchars c (by simp)
      obtain ⟨-, hhead⟩ :=
        Grammar.eq_dash_of_not_continuesName hc (h.stops c more hrest)
      obtain ⟨tail, rfl⟩ := List.head?_eq_some_iff.1 hhead
      exact absurd (hchars '>' (by simp)) (by decide)

/-- Trimming at the end leaves the word and the blanks after it alone. -/
theorem trimRight_eq (h : Gap front gap back) :
    Text.trimRight (front ++ (gap ++ back)) =
      front ++ (gap ++ Text.trimRight back) := by
  rw [Text.trimRight_append_of_solidEnd h.solidEnd, Text.trimRight_append_eq,
    if_neg (Text.trimRight_ne_nil h.solid h.ne_nil)]

theorem trimRight (h : Gap front gap back) : Gap front gap (Text.trimRight back) := by
  obtain ⟨blanks, hblanks, hback⟩ := Text.trimRight_append back
  have hne := Text.trimRight_ne_nil h.solid h.ne_nil
  rw [hback] at h
  refine h.cut hne fun hhead => ?_
  have hblank := hblanks '>' (List.mem_of_mem_head? hhead)
  exact absurd hblank (by decide)

/-- The comment of the text starts before the word, or after it and the blanks. -/
theorem dropComment_eq (h : Gap front gap back) :
    dropComment (front ++ (gap ++ back)) =
      if dropComment front = front then front ++ (gap ++ dropComment back)
      else dropComment front := by
  rw [dropComment_append (h.getLast?_ne (by decide)), dropComment_blanks_append h.blanks]

theorem dropComment (h : Gap front gap back) (hne : Session.dropComment back ≠ []) :
    Gap front gap (Session.dropComment back) := by
  obtain ⟨rest, hback, hrest⟩ := dropComment_append_rest back
  rw [hback] at h
  refine h.cut hne fun hhead => ?_
  exact absurd (hrest '>' hhead) (by decide)

end Gap

/-! ## Cleaning and trimming -/

namespace Spaced

variable {a b : List Char}

theorem append_left (h : Spaced a b) (pre : List Char) : Spaced (pre ++ a) (pre ++ b) := by
  cases h with
  | same => exact .same _
  | gap h =>
      rw [← List.append_assoc pre, ← List.append_assoc pre]
      exact .gap (h.append_left pre)

theorem trimLeft (h : Spaced a b) : Spaced (Text.trimLeft a) (Text.trimLeft b) := by
  cases h with
  | same => exact .same _
  | gap h =>
      obtain ⟨front', hgap, htrim⟩ := h.trimLeft
      rw [htrim, htrim]
      exact .gap hgap

theorem trimRight (h : Spaced a b) : Spaced (Text.trimRight a) (Text.trimRight b) := by
  cases h with
  | same => exact .same _
  | gap h =>
      rw [h.trimRight_eq, h.single.trimRight_eq]
      exact .gap h.trimRight

theorem trim (h : Spaced a b) : Spaced (Text.trim a) (Text.trim b) :=
  h.trimLeft.trimRight

theorem cleanChars (h : Spaced a b) :
    Spaced (Session.cleanChars a) (Session.cleanChars b) := by
  cases h with
  | same => exact .same _
  | @gap front gap back h =>
      unfold Session.cleanChars
      rw [h.dropComment_eq, h.single.dropComment_eq]
      by_cases hfront : dropComment front = front
      · rw [if_pos hfront, if_pos hfront]
        by_cases hback : dropComment back = []
        · -- nothing but a comment comes after the word
          rw [hback, List.append_nil, List.append_nil,
            Text.trimRight_append_blanks _ h.blanks,
            Text.trimRight_append_blanks _ h.single.blanks]
          exact .same _
        · exact (Spaced.gap (h.dropComment hback)).trimRight
      · rw [if_neg hfront, if_neg hfront]
        exact .same _

/-! ## What is found in the texts -/

/-- One more character changes the depth by a parenthesis or not at all. -/
theorem hasOuterEquals_cons (depth : Int) (c : Char) (cs : List Char) :
    hasOuterEquals depth (c :: cs) = ((c = '=' && depth = 0) ||
      hasOuterEquals (depth + if c = '(' then 1 else if c = ')' then -1 else 0) cs) := by
  by_cases hopen : c = '('
  · subst hopen
    simp [hasOuterEquals]
  · by_cases hclose : c = ')'
    · subst hclose
      simp [hasOuterEquals, Int.sub_eq_add_neg]
    · rw [if_neg hopen, if_neg hclose, Int.add_zero, hasOuterEquals]
      · exact hopen
      · exact hclose

/-- Blanks are no equals signs and change no depth. -/
theorem hasOuterEquals_blanks_append {bs : List Char} (h : Blanks bs) (depth : Int)
    (cs : List Char) : hasOuterEquals depth (bs ++ cs) = hasOuterEquals depth cs := by
  induction bs with
  | nil => rfl
  | cons c bs ih =>
      obtain ⟨hc, hbs⟩ := List.forall_mem_cons.1 h
      have hne : c ≠ '=' ∧ c ≠ '(' ∧ c ≠ ')' := by
        refine ⟨?_, ?_, ?_⟩ <;> (rintro rfl; exact absurd hc (by decide))
      rw [List.cons_append, hasOuterEquals_cons, if_neg hne.2.1, if_neg hne.2.2,
        Int.add_zero, ih hbs]
      simp [hne.1]

theorem hasOuterEquals_append_congr (front : List Char) {cs ds : List Char}
    (h : ∀ depth, hasOuterEquals depth cs = hasOuterEquals depth ds) (depth : Int) :
    hasOuterEquals depth (front ++ cs) = hasOuterEquals depth (front ++ ds) := by
  induction front generalizing depth with
  | nil => exact h depth
  | cons c front ih =>
      rw [List.cons_append, List.cons_append, hasOuterEquals_cons, hasOuterEquals_cons,
        ih]

theorem head?_eq (h : Spaced a b) : a.head? = b.head? := by
  cases h with
  | same => rfl
  | gap h =>
      rw [List.head?_append_of_ne_nil _ h.front_ne_nil,
        List.head?_append_of_ne_nil _ h.front_ne_nil]

/-- A character that is in no word of the shell may be taken off the front. -/
theorem tail {c : Char} {as : List Char} (h : Spaced (c :: as) b)
    (hc : c ∈ [';', '-', ':', '=']) : ∃ bs, b = c :: bs ∧ Spaced as bs := by
  generalize hwhole : c :: as = whole at h
  cases h with
  | same => exact ⟨as, hwhole.symm, .same _⟩
  | @gap front gap back h =>
      obtain ⟨d, rest, rfl⟩ := List.exists_cons_of_ne_nil h.front_ne_nil
      obtain ⟨rfl, rfl⟩ := List.cons.inj hwhole
      have hfront : Gap ([] ++ c :: rest) gap back := h
      exact ⟨_, rfl, .gap (hfront.of_append (.inr hc))⟩

theorem count_eq (h : Spaced a b) {c : Char} (hc : isBlank c = false) :
    a.count c = b.count c := by
  cases h with
  | same => rfl
  | gap h =>
      rw [List.count_append, List.count_append, List.count_append, List.count_append,
        Text.count_eq_zero_of_blanks h.blanks hc,
        Text.count_eq_zero_of_blanks h.single.blanks hc]

theorem leavesOpenChars_eq (h : Spaced a b) : leavesOpenChars a = leavesOpenChars b := by
  unfold leavesOpenChars
  rw [h.count_eq (isBlank_paren (.inl rfl)), h.count_eq (isBlank_paren (.inr rfl))]

theorem hasOuterEquals_eq (h : Spaced a b) (depth : Int) :
    hasOuterEquals depth a = hasOuterEquals depth b := by
  cases h with
  | same => rfl
  | gap h =>
      refine hasOuterEquals_append_congr _ (fun d => ?_) depth
      rw [hasOuterEquals_blanks_append h.blanks,
        hasOuterEquals_blanks_append h.single.blanks]

/-- The same term is read from both. -/
theorem parse_iff (h : Spaced a b) (t : Term) :
    Grammar.parse (String.ofList a) = .ok t ↔ Grammar.parse (String.ofList b) = .ok t := by
  cases h with
  | same => rfl
  | gap h =>
      exact ⟨Grammar.parse_of_gap h.blanks h.single.blanks h.apart h.single.apart,
        Grammar.parse_of_gap h.single.blanks h.blanks h.single.apart h.apart⟩

/-- Both are valid names only if they are the same text. -/
theorem validName_iff (h : Spaced a b) (x : Name) :
    ValidName (String.ofList a) ∧ String.ofList a = x ↔
      ValidName (String.ofList b) ∧ String.ofList b = x := by
  cases h with
  | same => rfl
  | gap h =>
      exact ⟨fun hname => absurd hname.1 h.not_validName,
        fun hname => absurd hname.1 h.single.not_validName⟩

end Spaced

/-! ## Definitions -/

/-- What a statement defines is found on the two sides of its first equals sign. -/
theorem defines_iff_of_toList {statement : String} {left right : List Char}
    (hstatement : statement.toList = left ++ '=' :: right) (hleft : '=' ∉ left)
    (x : Name) (t : Term) :
    Defines statement t ∧ definedName statement = x ↔
      (ValidName (String.ofList (Text.trim left)) ∧
          String.ofList (Text.trim left) = x) ∧
        Grammar.parse (String.ofList (Text.trim right)) = .ok t := by
  have hsplit := splitAtChar_of_toList hstatement hleft
  have hname : definedName statement = String.ofList (Text.trim left) := by
    rw [definedName, hsplit, trimmed, String.toList_ofList]
  have htext : definingText statement = String.ofList (Text.trim right) := by
    rw [definingText, hsplit, trimmed, String.toList_ofList]
  constructor
  · rintro ⟨⟨-, hvalid, hterm⟩, hx⟩
    rw [hname] at hvalid hx
    rw [htext] at hterm
    exact ⟨⟨hvalid, hx⟩, hterm⟩
  · rintro ⟨⟨hvalid, hx⟩, hterm⟩
    have hmark : '=' ∈ statement.toList := by
      rw [hstatement]
      simp
    exact ⟨⟨hmark, by rwa [hname], by rwa [htext]⟩, hname.trans hx⟩

/-- Both are cut in the same way at their first equals sign. -/
theorem Gap.cut_alike {front gap back : List Char} (h : Gap front gap back)
    (hmem : '=' ∈ front ++ (gap ++ back)) :
    ∃ left left' right right', front ++ (gap ++ back) = left ++ '=' :: right ∧
      front ++ ([' '] ++ back) = left' ++ '=' :: right' ∧
      '=' ∉ left ∧ '=' ∉ left' ∧ Spaced (Text.trim left) (Text.trim left') ∧
      Spaced (Text.trim right) (Text.trim right') := by
  have hgap : '=' ∉ gap := fun hmark => absurd (h.blanks '=' hmark) (by decide)
  by_cases hfront : '=' ∈ front
  · obtain ⟨left, after, rfl, hleft⟩ := List.eq_append_cons_of_mem hfront
    have hafter := h.of_append (.inr (by decide))
    exact ⟨left, left, _, _, List.append_assoc _ _ _, List.append_assoc _ _ _, hleft,
      hleft, .same _, (Spaced.gap hafter).trim⟩
  · have hback : '=' ∈ back := by simpa [hfront, hgap] using hmem
    obtain ⟨before, right, rfl, hbefore⟩ := List.eq_append_cons_of_mem hback
    refine ⟨front ++ (gap ++ before), front ++ ([' '] ++ before), right, right, by simp,
      by simp, by simp [hfront, hgap, hbefore], by simp [hfront, hbefore], ?_, .same _⟩
    by_cases hnil : before = []
    · -- the equals sign is the first thing after the word
      rw [hnil, List.append_nil, List.append_nil, Text.trim_append_blanks _ h.blanks,
        Text.trim_append_blanks _ h.single.blanks]
      exact .same _
    · exact (Spaced.gap (h.cut hnil (by simp))).trim

/-- Both define the same name as the same term, or none of them anything. -/
theorem Spaced.defines_iff {a b : String} (h : Spaced a.toList b.toList) (x : Name)
    (t : Term) :
    Defines a t ∧ definedName a = x ↔ Defines b t ∧ definedName b = x := by
  have hcount : '=' ∈ a.toList ↔ '=' ∈ b.toList := by
    rw [← List.count_pos_iff, h.count_eq (by decide), List.count_pos_iff]
  by_cases hmem : '=' ∈ a.toList
  · generalize ha : a.toList = as at h hmem
    generalize hb : b.toList = bs at h
    cases h with
    | same =>
        rw [String.toList_injective (ha.trans hb.symm)]
    | gap h =>
        obtain ⟨left, left', right, right', hcut, hcut', hleft, hleft', hname, hterm⟩ :=
          h.cut_alike hmem
        rw [defines_iff_of_toList (ha.trans hcut) hleft,
          defines_iff_of_toList (hb.trans hcut') hleft', hname.validName_iff,
          hterm.parse_iff]
  · exact ⟨fun hdefines => absurd hdefines.1.mark hmem,
      fun hdefines => absurd (hcount.2 hdefines.1.mark) hmem⟩

end UntypedLambda.Shell
