import UntypedLambda.Grammar.Diagnosis
import UntypedLambda.Proofs.Grammar.Segmentation

/-!
# The first illegal character of a text

Which characters may stand in a text does not depend on how it is read: blanks,
marks and name characters anywhere, and `>` after a dash (`LegalAt`).  The lexer
refuses a text exactly at the first character that is not of these.

It knows nothing about the characters that it has passed, so `>` is refused
wherever the lexer comes to it.  It does not come to one after a dash: neither
a blank nor a lexeme ends between the two (`not_inArrow_of_lexeme`).  With that
kept, every step of the lexer passes legal characters only, and the character
that it stops at is illegal.

## Main results

* `legalAt_of_lexeme`: the characters of a lexeme are legal.
* `pinpoints_scan`: what the lexer says about the illegal characters from a
  position on.
* `tokenize_fails_at_first_illegal`: the lexer fails exactly at the first illegal
  character.
-/

namespace UntypedLambda.Grammar

/-- The character at a position may stand there. -/
def LegalAt (cs : List Char) (i : Nat) : Prop :=
  ∃ c, cs[i]? = some c ∧
    (Text.isBlank c = true ∨ c ∈ tokenMarks ∨ isNameChar c = true ∨
      c = '>' ∧ 0 < i ∧ cs[i - 1]? = some '-')

/-- The character at a position may not stand there. -/
def IllegalAt (cs : List Char) (i : Nat) : Prop := i < cs.length ∧ ¬ LegalAt cs i

/-! ## Arrows -/

/-- A position between a dash and `>`. -/
def InArrow (cs : List Char) (pos : Nat) : Prop :=
  ∃ j, pos = j + 1 ∧ cs[j]? = some '-' ∧ cs[pos]? = some '>'

theorem not_inArrow_zero (cs : List Char) : ¬ InArrow cs 0 := by
  rintro ⟨j, hj, -⟩
  cases hj

theorem not_inArrow_of_blank {cs : List Char} {pos : Nat} {c : Char}
    (hc : cs[pos]? = some c) (hblank : Text.isBlank c = true) :
    ¬ InArrow cs (pos + 1) := by
  rintro ⟨j, hj, hdash, -⟩
  obtain rfl := Nat.succ.inj hj
  rw [hc] at hdash
  cases hdash
  exact absurd hblank (by decide)

/-- A lexeme does not end before the `>` of an arrow. -/
theorem not_inArrow_of_lexeme {cs front text rest : List Char} {pos : Nat}
    {kind : Kind} (hfront : cs.drop pos = front)
    (hlex : lexeme? front = some (kind, text, rest)) :
    ¬ InArrow cs (pos + text.length) := by
  rintro ⟨j, hj, hdash, hnext⟩
  obtain ⟨happend, hadmits, -⟩ := lexeme?_eq_some_iff.1 hlex
  obtain ⟨k, hk⟩ := Nat.exists_eq_add_one.2 (List.length_pos_iff.2 hadmits.ne_nil)
  have hlast : front[k]? = some '-' := by
    rw [← hfront, List.getElem?_drop, ← hdash]
    congr 1
    omega
  have hafter : front[k + 1]? = some '>' := by
    rw [← hfront, List.getElem?_drop, ← hk, hnext]
  have harrow := arrow_of_lexeme hlex (by omega) hlast hafter
  rw [harrow] at hadmits
  -- an arrow does not end in a dash
  rw [happend] at hlast
  rcases hadmits with rfl | rfl
  · cases hk
    cases hlast
  · cases hk
    cases hlast

/-! ## Steps of the lexer -/

/-- The characters of a lexeme are legal. -/
theorem legalAt_of_lexeme {cs front text rest : List Char} {pos : Nat}
    {kind : Kind} (hfront : cs.drop pos = front)
    (hlex : lexeme? front = some (kind, text, rest)) {i : Nat} (hlo : pos ≤ i)
    (hhi : i < pos + text.length) : LegalAt cs i := by
  obtain ⟨happend, hadmits, -⟩ := lexeme?_eq_some_iff.1 hlex
  obtain ⟨j, rfl⟩ := Nat.exists_eq_add_of_le hlo
  have hat : ∀ k, k < text.length → cs[pos + k]? = text[k]? := by
    intro k hk
    rw [← List.getElem?_drop, hfront, happend, List.getElem?_append_left hk]
  have hj : j < text.length := by omega
  have hc : text[j]? = some text[j] := List.getElem?_eq_getElem hj
  refine ⟨text[j], (hat j hj).trans hc, ?_⟩
  rcases hadmits.getElem? hc with hmark | hname | ⟨rfl, rfl, hgreater⟩
  · exact Or.inr (Or.inl hmark)
  · exact Or.inr (Or.inr (Or.inl hname))
  · exact Or.inr (Or.inr (Or.inr ⟨hgreater, Nat.succ_pos _, hat 0 (by decide)⟩))

/-- Where no lexeme starts, the character is illegal unless it ends an arrow. -/
theorem illegalAt_of_no_lexeme {cs more : List Char} {pos : Nat} {c : Char}
    (hfront : cs.drop pos = c :: more) (hvisible : Text.isBlank c = false)
    (hlex : lexeme? (c :: more) = none) (hpos : ¬ InArrow cs pos) :
    IllegalAt cs pos := by
  have hc : cs[pos]? = some c := getElem?_of_drop hfront
  obtain ⟨hmark, hname⟩ := lexeme?_eq_none_iff.1 hlex
  refine ⟨(List.getElem?_eq_some_iff.1 hc).1, ?_⟩
  rintro ⟨d, hd, hlegal⟩
  rw [hc] at hd
  cases hd
  rcases hlegal with hblank | hmem | hchar | ⟨rfl, hpositive, hdash⟩
  · rw [hvisible] at hblank
    cases hblank
  · exact hmark hmem
  · rw [hname] at hchar
    cases hchar
  · exact hpos ⟨pos - 1, by omega, hdash, hc⟩

/-! ## The lexer -/

/-- What the lexer says about the illegal characters of a text from a position
on. -/
def Pinpoints (cs : List Char) (pos : Nat) :
    Except IllegalChar (List Token) → Prop
  | .ok _ => ∀ i, pos ≤ i → ¬ IllegalAt cs i
  | .error e =>
      cs[e.position]? = some e.char ∧ pos ≤ e.position ∧ IllegalAt cs e.position ∧
        ∀ i, pos ≤ i → IllegalAt cs i → e.position ≤ i

/-- What is said from a position on holds from an earlier position on, if there
are legal characters in between. -/
theorem Pinpoints.extend {cs : List Char} {pos stop : Nat}
    {result : Except IllegalChar (List Token)} (h : Pinpoints cs stop result)
    (hle : pos ≤ stop) (hlegal : ∀ i, pos ≤ i → i < stop → LegalAt cs i) :
    Pinpoints cs pos result := by
  have hlater : ∀ i, pos ≤ i → IllegalAt cs i → stop ≤ i := by
    intro i hlo hi
    rcases Nat.lt_or_ge i stop with hlt | hge
    · exact absurd (hlegal i hlo hlt) hi.2
    · exact hge
  cases result with
  | ok tokens => exact fun i hlo hi => h i (hlater i hlo hi) hi
  | error e =>
      obtain ⟨hchar, hstop, hillegal, hleast⟩ := h
      exact ⟨hchar, Nat.le_trans hle hstop, hillegal,
        fun i hlo hi => hleast i (hlater i hlo hi) hi⟩

theorem Pinpoints.map {cs : List Char} {pos : Nat}
    {result : Except IllegalChar (List Token)} (h : Pinpoints cs pos result)
    (f : List Token → List Token) : Pinpoints cs pos (result.map f) := by
  cases result <;> exact h

/-- From a position that is not inside an arrow the lexer finds the first
illegal character. -/
theorem pinpoints_scan {cs rest : List Char} {pos : Nat}
    (hrest : cs.drop pos = rest) (hpos : ¬ InArrow cs pos) :
    Pinpoints cs pos (scan pos rest) := by
  induction pos, rest using scan.induct with
  | case1 pos =>
      rw [scan]
      intro i hlo hi
      have hlength := List.drop_eq_nil_iff.1 hrest
      exact absurd hi.1 (by omega)
  | case2 pos c more hblank ih =>
      have hc := getElem?_of_drop hrest
      have hmore :=
        ih (drop_succ_of_drop hrest) (not_inArrow_of_blank hc hblank)
      rw [scan_of_blank hblank]
      refine hmore.extend (Nat.le_succ pos) ?_
      intro i hlo hhi
      obtain rfl := Nat.le_antisymm hlo (Nat.le_of_lt_succ hhi)
      exact ⟨c, hc, Or.inl hblank⟩
  | case3 pos c more hvisible hlex =>
      rw [Bool.not_eq_true] at hvisible
      rw [scan_of_no_lexeme hvisible hlex]
      have hillegal := illegalAt_of_no_lexeme hrest hvisible hlex hpos
      exact ⟨getElem?_of_drop hrest, Nat.le_refl pos, hillegal, fun i hlo _ => hlo⟩
  | case4 pos c more hvisible kind text after hlex ih =>
      rw [Bool.not_eq_true] at hvisible
      rw [scan_of_lexeme hvisible hlex]
      have hafter :=
        ih (drop_of_lexeme hrest hlex) (not_inArrow_of_lexeme hrest hlex)
      refine (hafter.extend (Nat.le_add_right pos _) ?_).map _
      exact fun i => legalAt_of_lexeme hrest hlex

theorem pinpoints_tokenize (source : String) :
    Pinpoints source.toList 0 (tokenize source) :=
  pinpoints_scan List.drop_zero (not_inArrow_zero _)

/-- A text with a character that may not stand anywhere is refused. -/
theorem tokenize_error_of_mem {source : String} {c : Char}
    (hmem : c ∈ source.toList) (hblank : Text.isBlank c = false)
    (hmark : c ∉ tokenMarks) (hname : isNameChar c = false) (harrow : c ≠ '>') :
    ∃ e, tokenize source = .error e := by
  have hfirst := pinpoints_tokenize source
  cases htokens : tokenize source with
  | error e => exact ⟨e, rfl⟩
  | ok tokens =>
      rw [htokens] at hfirst
      obtain ⟨i, hi⟩ := List.mem_iff_getElem?.1 hmem
      have hlength : i < source.toList.length := (List.getElem?_eq_some_iff.1 hi).1
      refine absurd ⟨hlength, ?_⟩ (hfirst i (Nat.zero_le i))
      rintro ⟨d, hd, hlegal⟩
      rw [hi, Option.some.injEq] at hd
      subst hd
      simp [hblank, hmark, hname, harrow] at hlegal

/-- A character that is illegal in the first part of a text is illegal in the
text. -/
theorem illegalAt_of_take {cs : List Char} {n i : Nat}
    (h : IllegalAt (cs.take n) i) : i < n ∧ IllegalAt cs i := by
  obtain ⟨hlength, hillegal⟩ := h
  rw [List.length_take] at hlength
  have hi : i < n := by omega
  refine ⟨hi, by omega, ?_⟩
  rintro ⟨c, hc, hlegal⟩
  apply hillegal
  refine ⟨c, by rw [List.getElem?_take_of_lt hi, hc], ?_⟩
  rwa [List.getElem?_take_of_lt (by omega)]

/-- The text before the first illegal character splits into tokens. -/
theorem tokenize_take_ok {source : String} {n : Nat}
    (h : ∀ i, IllegalAt source.toList i → n ≤ i) :
    ∃ tokens, tokenize (String.ofList (source.toList.take n)) = .ok tokens := by
  have hfirst := pinpoints_tokenize (String.ofList (source.toList.take n))
  rw [String.toList_ofList] at hfirst
  cases htokens : tokenize (String.ofList (source.toList.take n)) with
  | ok tokens => exact ⟨tokens, rfl⟩
  | error e =>
      rw [htokens] at hfirst
      obtain ⟨-, -, hillegal, -⟩ := hfirst
      obtain ⟨hlt, hwhole⟩ := illegalAt_of_take hillegal
      exact absurd (h _ hwhole) (by omega)

/-- **The lexer fails exactly at the first illegal character.**  A text without
one splits into tokens, and so does what stands before it. -/
theorem tokenize_fails_at_first_illegal (source : String) :
    ((∃ e, tokenize source = .error e) ↔ ∃ i, IllegalAt source.toList i) ∧
      ∀ e, tokenize source = .error e →
        IllegalAt source.toList e.position ∧
          (∀ i, IllegalAt source.toList i → e.position ≤ i) ∧
          source.toList[e.position]? = some e.char ∧
          (e.notice source).category = .lexical ∧
          (e.notice source).start = e.position ∧
          (e.notice source).stop = e.position + 1 ∧
          ∃ tokens,
            tokenize (String.ofList (source.toList.take e.position)) = .ok tokens := by
  have hfirst := pinpoints_tokenize source
  cases htokens : tokenize source with
  | ok tokens =>
      rw [htokens] at hfirst
      constructor
      · constructor
        · rintro ⟨e, he⟩
          cases he
        · rintro ⟨i, hi⟩
          exact absurd hi (hfirst i (Nat.zero_le i))
      · intro e he
        cases he
  | error e =>
      rw [htokens] at hfirst
      obtain ⟨hchar, -, hillegal, hleast⟩ := hfirst
      constructor
      · exact ⟨fun _ => ⟨e.position, hillegal⟩, fun _ => ⟨e, rfl⟩⟩
      · intro e' he
        cases he
        have hbefore : ∀ i, IllegalAt source.toList i → e.position ≤ i :=
          fun i => hleast i (Nat.zero_le i)
        exact ⟨hillegal, hbefore, hchar, rfl, rfl, rfl, tokenize_take_ok hbefore⟩

/-- The second `>` after a dash is illegal, and it comes before one after a
blank. -/
theorem tokenize_fails_at_first_illegal_arrow :
    let source := "λx->>y- > ="
    tokenize source = .error ⟨4, '>'⟩ ∧ IllegalAt source.toList 4 ∧
      (∀ i, IllegalAt source.toList i → 4 ≤ i) ∧
      ∃ tokens, tokenize (String.ofList (source.toList.take 4)) = .ok tokens := by
  intro source
  have hfails : tokenize "λx->>y- > =" = .error ⟨4, '>'⟩ := by
    with_unfolding_all rfl
  obtain ⟨hillegal, hleast, -, -, -, -, hbefore⟩ :=
    (tokenize_fails_at_first_illegal source).2 _ hfails
  exact ⟨hfails, hillegal, hleast, hbefore⟩

end UntypedLambda.Grammar
