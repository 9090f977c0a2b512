import UntypedLambda.Proofs.Text.Trimming
import UntypedLambda.Session.Line

/-!
# Clean lines and unfinished lines

A line is cleaned by cutting it at its comment and trimming its end.  A clean
line has no comment and no blank at its end (`Clean`), and cleaning leaves it
alone.

Lines are joined with a space, across which no comment mark can come about.  So
of a clean line and the line joined to it only the latter has still to be
cleaned.  Nor does it matter whether the blanks around a line are dropped before
it is cleaned or after that, because no blank is part of a comment mark.

A clean line that leaves parentheses open is unfinished (`Unfinished`) and goes
on in the next line.  It, too, may be trimmed before or after that.

## Main results

* `clean_cleanChars`: cleaning makes a line clean.
* `Clean.cleanChars_join`: how a line is cleaned that is joined to a clean one.
* `trim_cleanChars`: trimming and cleaning can be exchanged.
* `Unfinished.continueLine_trimmed`: trimming an unfinished line and going on with
  it can be exchanged.
-/

namespace UntypedLambda.Session

open Text (Blanks SolidStart SolidEnd isBlank trim trimLeft trimRight)

/-! ## Comments -/

theorem dropComment_nil : dropComment [] = [] := rfl

theorem commentMark_prefix_cons (c : Char) (cs : List Char) :
    commentMark <+: c :: cs ↔ c = ';' ∧ cs.head? = some ';' := by
  rw [commentMark, List.cons_prefix_cons, eq_comm (a := ';')]
  cases cs with
  | nil => simp
  | cons d cs => simp [List.cons_prefix_cons, eq_comm]

/-- A text is cut at the first of two semicolons in a row. -/
theorem dropComment_cons (c : Char) (cs : List Char) :
    dropComment (c :: cs) =
      if c = ';' ∧ cs.head? = some ';' then [] else c :: dropComment cs := by
  have hmark : commentMark.isPrefixOf (c :: cs) = true ↔
      c = ';' ∧ cs.head? = some ';' := by
    rw [List.isPrefixOf_iff_prefix, commentMark_prefix_cons]
  unfold dropComment
  rw [Text.splitAt?]
  by_cases h : c = ';' ∧ cs.head? = some ';'
  · rw [if_pos (hmark.2 h), if_pos h]
  · rw [if_neg (mt hmark.1 h), if_neg h]
    cases Text.splitAt? commentMark cs <;> rfl

theorem dropComment_prefix (cs : List Char) : dropComment cs <+: cs := by
  induction cs with
  | nil => exact List.prefix_rfl
  | cons c cs ih =>
      rw [dropComment_cons]
      split
      · exact List.nil_prefix
      · exact (List.prefix_cons_inj c).2 ih

/-- A text has no comment exactly if it has no two semicolons in a row. -/
theorem dropComment_eq_self_iff (cs : List Char) :
    dropComment cs = cs ↔ ¬ commentMark <:+: cs := by
  induction cs with
  | nil => simp [dropComment_nil, commentMark]
  | cons c cs ih =>
      rw [dropComment_cons, List.infix_cons_iff, commentMark_prefix_cons, not_or,
        ← ih]
      split
      · next hmark => simp [hmark]
      · next hmark => simp [hmark]

theorem not_commentMark_dropComment (cs : List Char) :
    ¬ commentMark <:+: dropComment cs := by
  induction cs with
  | nil => simp [dropComment_nil, commentMark]
  | cons c cs ih =>
      rw [dropComment_cons]
      split
      · simp [commentMark]
      · next hmark =>
          rw [List.infix_cons_iff, commentMark_prefix_cons, not_or]
          refine ⟨fun hboth => hmark ⟨hboth.1, ?_⟩, ih⟩
          obtain ⟨rest, hrest⟩ := dropComment_prefix cs
          rw [← hrest, List.head?_append, hboth.2]
          rfl

/-- What is dropped with the comment of a text starts with its mark. -/
theorem dropComment_append_rest (cs : List Char) :
    ∃ rest, cs = dropComment cs ++ rest ∧ ∀ c, rest.head? = some c → c = ';' := by
  unfold dropComment
  split
  · exact ⟨[], (List.append_nil cs).symm, by simp⟩
  · next code rest hcut =>
      refine ⟨commentMark ++ rest, ?_, ?_⟩
      · rw [← List.append_assoc]
        exact Text.eq_of_splitAt?_eq_some hcut
      · rintro c ⟨⟩
        rfl

/-- The comment of a text starts in the front of it or in the rest, unless it is cut
in two there. -/
theorem dropComment_append {front : List Char} (h : front.getLast? ≠ some ';')
    (rest : List Char) :
    dropComment (front ++ rest) =
      if dropComment front = front then front ++ dropComment rest
      else dropComment front := by
  induction front with
  | nil => rfl
  | cons c front ih =>
      rw [List.cons_append, dropComment_cons, dropComment_cons]
      cases front with
      | nil =>
          have hc : c ≠ ';' := by
            rintro rfl
            exact h rfl
          simp [hc, dropComment_nil]
      | cons d front =>
          have ih' := ih (by simpa using h)
          have hhead : (d :: front ++ rest).head? = (d :: front).head? := rfl
          rw [hhead]
          by_cases hmark : c = ';' ∧ (d :: front).head? = some ';'
          · rw [if_pos hmark, if_pos hmark, if_neg (by simp)]
          · rw [if_neg hmark, if_neg hmark, ih']
            split
            · next heq => rw [heq, if_pos rfl]; rfl
            · next hne => rw [if_neg (by simpa using hne)]

/-- The comment of a text is not affected by what stands before a space, as long
as there is none in that. -/
theorem dropComment_append_space {front : List Char}
    (h : dropComment front = front) (rest : List Char) :
    dropComment (front ++ ' ' :: rest) = front ++ ' ' :: dropComment rest := by
  induction front with
  | nil =>
      rw [List.nil_append, dropComment_cons, if_neg (by simp)]
      rfl
  | cons c front ih =>
      rw [dropComment_cons] at h
      split at h
      · cases h
      · next hmark =>
          have hfront : dropComment front = front := (List.cons.inj h).2
          have hhead : ¬ (c = ';' ∧ (front ++ ' ' :: rest).head? = some ';') := by
            cases front with
            | nil => simp
            | cons d front => exact hmark
          rw [List.cons_append, dropComment_cons, if_neg hhead, ih hfront]
          rfl

theorem isBlank_semicolon : isBlank ';' = false := by decide

theorem dropComment_blanks_append {bs : List Char} (h : Blanks bs)
    (rest : List Char) : dropComment (bs ++ rest) = bs ++ dropComment rest := by
  induction bs with
  | nil => rfl
  | cons c bs ih =>
      have hc : c ≠ ';' := by
        intro heq
        have hblank := h c List.mem_cons_self
        rw [heq, isBlank_semicolon] at hblank
        cases hblank
      have hbs : Blanks bs := fun d hd => h d (List.mem_cons_of_mem c hd)
      rw [List.cons_append, dropComment_cons, if_neg (by simp [hc]), ih hbs]
      rfl

/-- Blanks at the end of a text belong to its comment or stay. -/
theorem dropComment_append_blanks (cs : List Char) {bs : List Char}
    (h : Blanks bs) :
    ∃ left, Blanks left ∧ dropComment (cs ++ bs) = dropComment cs ++ left := by
  induction cs with
  | nil =>
      refine ⟨bs, h, ?_⟩
      have hbs := dropComment_blanks_append h []
      rw [List.append_nil] at hbs
      rw [List.nil_append, hbs, dropComment_nil, List.append_nil, List.nil_append]
  | cons c cs ih =>
      obtain ⟨left, hleft, hcs⟩ := ih
      by_cases hmark : c = ';' ∧ cs.head? = some ';'
      · refine ⟨[], by simp [Blanks], ?_⟩
        have hmark' : c = ';' ∧ (cs ++ bs).head? = some ';' := by
          refine ⟨hmark.1, ?_⟩
          rw [List.head?_append, hmark.2]
          rfl
        rw [List.cons_append, dropComment_cons, if_pos hmark', dropComment_cons,
          if_pos hmark]
        rfl
      · refine ⟨left, hleft, ?_⟩
        have hmark' : ¬ (c = ';' ∧ (cs ++ bs).head? = some ';') := by
          intro hboth
          refine hmark ⟨hboth.1, ?_⟩
          cases cs with
          | nil =>
              -- the second semicolon would be among the blanks
              have hmem := List.mem_of_mem_head? hboth.2
              have hblank := h _ hmem
              rw [isBlank_semicolon] at hblank
              cases hblank
          | cons d cs => exact hboth.2
        rw [List.cons_append, dropComment_cons, if_neg hmark', dropComment_cons,
          if_neg hmark, hcs]
        rfl

/-! ## Clean lines -/

/-- A line without a comment and without blanks at its end. -/
structure Clean (cs : List Char) : Prop where
  noComment : ¬ commentMark <:+: cs
  solidEnd : SolidEnd cs

theorem clean_cleanChars (cs : List Char) : Clean (cleanChars cs) := by
  refine ⟨fun hmark => ?_, Text.solidEnd_trimRight _⟩
  obtain ⟨blanks, -, hcs⟩ := Text.trimRight_append (dropComment cs)
  refine not_commentMark_dropComment cs (hmark.trans ?_)
  rw [hcs]
  exact (List.prefix_append _ _).isInfix

theorem Clean.cleanChars_eq {cs : List Char} (h : Clean cs) :
    cleanChars cs = cs := by
  rw [cleanChars, (dropComment_eq_self_iff cs).2 h.noComment,
    Text.trimRight_of_solidEnd h.solidEnd]

/-- What is joined to a clean line stays apart from it. -/
theorem Clean.cleanChars_join {front : List Char} (h : Clean front)
    (rest : List Char) :
    cleanChars (front ++ ' ' :: rest) =
      front ++ trimRight (' ' :: dropComment rest) := by
  have hfront := (dropComment_eq_self_iff front).2 h.noComment
  rw [cleanChars, dropComment_append_space hfront,
    Text.trimRight_append_of_solidEnd h.solidEnd]

/-- It does not matter whether the blanks around a line are dropped before it is
cleaned or after that. -/
theorem trim_cleanChars (cs : List Char) :
    trim (cleanChars cs) = cleanChars (trim cs) := by
  obtain ⟨before, after, hbefore, hafter, hcs⟩ := Text.trim_between cs
  obtain ⟨left, hleft, hdrop⟩ := dropComment_append_blanks (trim cs) hafter
  have hstart : SolidStart (dropComment (trim cs)) := by
    obtain ⟨rest, hrest⟩ := dropComment_prefix (trim cs)
    have hwhole := Text.solidStart_trim cs
    rw [← hrest] at hwhole
    exact hwhole.of_append
  calc trim (cleanChars cs)
      = trim (dropComment cs) := by
        rw [cleanChars, Text.trim_trimRight]
    _ = trim (before ++ (dropComment (trim cs) ++ left)) := by
        rw [hcs, dropComment_blanks_append hbefore, ← hcs, hdrop]
    _ = trim (dropComment (trim cs)) := by
        rw [Text.trim_blanks_append hbefore, Text.trim_append_blanks _ hleft]
    _ = cleanChars (trim cs) := by
        rw [trim, Text.trimLeft_of_solidStart hstart, cleanChars]

/-! ## Lines as strings -/

@[simp] theorem toList_clean (line : String) :
    (clean line).toList = cleanChars line.toList := String.toList_ofList

@[simp] theorem toList_trimmed (s : String) :
    (trimmed s).toList = trim s.toList := String.toList_ofList

theorem trimmed_clean (line : String) :
    trimmed (clean line) = clean (trimmed line) := by
  apply String.toList_injective
  rw [toList_trimmed, toList_clean, toList_clean, toList_trimmed, trim_cleanChars]

theorem trimmed_trimmed (s : String) : trimmed (trimmed s) = trimmed s := by
  apply String.toList_injective
  rw [toList_trimmed, toList_trimmed]
  exact Text.trim_of_solid (Text.solidStart_trim _) (Text.solidEnd_trim _)

/-- A line that has been cleaned and trimmed stays as it is. -/
theorem trimmed_clean_idem (line : String) :
    trimmed (clean (trimmed (clean line))) = trimmed (clean line) := by
  rw [trimmed_clean (trimmed (clean line)), trimmed_trimmed, trimmed_clean line]
  apply String.toList_injective
  rw [toList_clean, toList_clean]
  exact (clean_cleanChars _).cleanChars_eq

/-- A line is cut at the first occurrence of a character. -/
theorem splitAtChar_of_toList {c : Char} {s : String} {left right : List Char}
    (hs : s.toList = left ++ c :: right) (hc : c ∉ left) :
    splitAtChar c s = (String.ofList left, String.ofList right) := by
  rw [splitAtChar, hs, Text.splitAt?_append_of_not_mem hc]

/-- A line without the character is not cut. -/
theorem splitAtChar_of_not_mem {c : Char} {s : String} (h : c ∉ s.toList) :
    splitAtChar c s = (s, "") := by
  unfold splitAtChar
  cases hcut : Text.splitAt? [c] s.toList with
  | none => rfl
  | some parts =>
      rw [Text.eq_of_splitAt?_eq_some hcut] at h
      simp at h

/-! ## Unfinished lines -/

theorem isBlank_paren {c : Char} (h : c = '(' ∨ c = ')') : isBlank c = false := by
  rcases h with rfl | rfl <;> decide

theorem count_trim {c : Char} (hc : isBlank c = false) (cs : List Char) :
    (trim cs).count c = cs.count c := by
  obtain ⟨before, after, hbefore, hafter, hcs⟩ := Text.trim_between cs
  rw [hcs, List.count_append, List.count_append, ← hcs,
    Text.count_eq_zero_of_blanks hbefore hc, Text.count_eq_zero_of_blanks hafter hc,
    Nat.zero_add, Nat.add_zero]

@[simp] theorem leavesOpen_trimmed (s : String) :
    leavesOpen (trimmed s) = leavesOpen s := by
  unfold leavesOpen leavesOpenChars
  rw [toList_trimmed, count_trim (isBlank_paren (.inl rfl)),
    count_trim (isBlank_paren (.inr rfl))]

/-- A clean line that leaves parentheses open. -/
structure Unfinished (text : String) : Prop where
  clean : Clean text.toList
  leavesOpen : leavesOpen text = true

theorem clean_continueLine (pending : Option String) (line : String) :
    Clean (continueLine pending line).toList := by
  unfold continueLine
  rw [toList_clean]
  exact clean_cleanChars _

theorem Unfinished.ne_empty {text : String} (h : Unfinished text) :
    trimmed text ≠ "" := by
  intro hempty
  have hopen := h.leavesOpen
  rw [← leavesOpen_trimmed, hempty] at hopen
  exact absurd hopen (by decide)

theorem toList_joinLines (pending line : String) :
    (joinLines pending line).toList = pending.toList ++ ' ' :: line.toList := by
  simp [joinLines]

/-- Nothing comes of joining an empty line to an unfinished one. -/
theorem Unfinished.continueLine_empty {text : String} (h : Unfinished text) :
    continueLine (some text) "" = text := by
  apply String.toList_injective
  unfold continueLine
  rw [toList_clean, toList_joinLines, h.clean.cleanChars_join]
  exact List.append_nil _

/-- An unfinished line may be trimmed before or after a line is joined to it. -/
theorem Unfinished.trimmed_joinLines {text : String} (h : Unfinished text)
    {line : String} (hline : trimmed line ≠ "") :
    trimmed (joinLines text (trimmed line)) =
      joinLines (trimmed text) (trimmed line) := by
  have hsolid : SolidEnd text.toList := h.clean.solidEnd
  have htext : trimLeft text.toList ≠ [] := by
    rw [Text.trimLeft_of_solidEnd hsolid, ← toList_trimmed, ne_eq,
      String.toList_eq_nil_iff]
    exact h.ne_empty
  have hne : (trimmed line).toList ≠ [] := by
    rw [ne_eq, String.toList_eq_nil_iff]
    exact hline
  have hend : SolidEnd (' ' :: (trimmed line).toList) := by
    refine SolidEnd.append ?_ hne [' ']
    rw [toList_trimmed]
    exact Text.solidEnd_trim _
  apply String.toList_injective
  rw [toList_trimmed, toList_joinLines, toList_joinLines, toList_trimmed text,
    Text.trim_append_of_solidEnd htext hend (List.cons_ne_nil _ _),
    Text.trimLeft_of_solidEnd hsolid]

/-- An unfinished line and the line joined to it may be trimmed before that. -/
theorem Unfinished.continueLine_trimmed {text : String} (h : Unfinished text)
    {line : String} (hline : trimmed line ≠ "") :
    continueLine (some (trimmed text)) (trimmed line) =
      trimmed (continueLine (some text) (trimmed line)) := by
  show Session.clean (joinLines (trimmed text) (trimmed line)) =
    trimmed (Session.clean (joinLines text (trimmed line)))
  rw [trimmed_clean, h.trimmed_joinLines hline]

end UntypedLambda.Session
