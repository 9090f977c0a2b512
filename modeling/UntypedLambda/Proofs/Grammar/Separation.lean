import UntypedLambda.Proofs.Grammar.Lexeme
import UntypedLambda.Proofs.Text.Trimming
import UntypedLambda.Session.Line

/-!
# Texts with blanks between them

Two lines that belong together are joined with a space, and the tokens of the
joined text are those of the one and then those of the other.  That the lexer
looks past the end of a token does not matter: a text that does not go on a name
in front of it, and makes no arrow with a last dash, changes no lexeme there
(`Apart`).  Nor does it matter where a text starts: all positions move along with
it (`scan_shift`).

## Main results

* `scan_append_of_apart`: a text is read up to where no token is cut in two and on
  from there.
* `scan_shift`: reading from a later position moves the tokens and the error.
* `tokenize_append_blanks`: blanks between two texts keep their tokens apart.
-/

namespace UntypedLambda.Grammar

/-- A token that stands `k` characters later. -/
def Token.shift (k : Nat) (t : Token) : Token := { t with start := t.start + k }

/-- An illegal character that stands `k` characters later. -/
def IllegalChar.shift (k : Nat) (e : IllegalChar) : IllegalChar :=
  { e with position := e.position + k }

/-! ## What follows a text -/

theorem endsName_of_isBlank {c : Char} (hblank : Text.isBlank c = true)
    (rest : List Char) : EndsName (c :: rest) := by
  intro d hd
  cases hd
  constructor
  · rw [Bool.eq_false_iff]
    intro hname
    rw [not_isBlank_of_isNameChar hname] at hblank
    cases hblank
  · rintro rfl
    exact absurd hblank (by decide)

/-- Two texts one after the other between which no token is cut in two: the second
does not go on a name at the end of the first, nor make an arrow with a dash
there. -/
structure Apart (cs more : List Char) : Prop where
  stops : ∀ c rest, more = c :: rest → continuesName c rest = false
  no_arrow : cs.getLast? = some '-' → more.head? ≠ some '>'

theorem EndsName.apart {more : List Char} (h : EndsName more) (cs : List Char) :
    Apart cs more := by
  refine ⟨?_, fun _ hhead => (h '>' hhead).2 rfl⟩
  rintro c rest rfl
  rw [continuesName, (h c rfl).1, Bool.false_and]

theorem Apart.of_append {text rest more : List Char} (h : Apart (text ++ rest) more) :
    Apart rest more := by
  refine ⟨h.stops, fun hlast => h.no_arrow ?_⟩
  rw [List.getLast?_append, hlast, Option.some_or]

theorem wholeName_append {text rest more : List Char} (h : WholeName text rest)
    (hmore : Apart (text ++ rest) more) : WholeName text (rest ++ more) := by
  refine ⟨h.chars, ?_, ?_⟩
  · intro hlast hhead
    cases rest with
    | nil =>
        rw [List.append_nil] at hmore
        exact hmore.no_arrow hlast hhead
    | cons c rest => exact h.no_arrow hlast hhead
  · intro c after hrest
    cases rest with
    | nil => exact hmore.stops c after hrest
    | cons d rest =>
        obtain ⟨rfl, rfl⟩ := List.cons.inj hrest
        have hstops := h.stops d rest rfl
        -- a dash that does not go on the name stands before `>` already
        rw [Bool.eq_false_iff, ne_eq, continuesName_eq_true_iff] at hstops ⊢
        rintro ⟨hd, hdash⟩
        refine hstops ⟨hd, ?_⟩
        intro heq hhead
        obtain ⟨tail, rfl⟩ := List.head?_eq_some_iff.1 hhead
        exact hdash heq rfl

/-- A text that stays apart from the one in front of it changes no lexeme there. -/
theorem lexeme?_append_of_apart {cs text rest more : List Char} {kind : Kind}
    (hlex : lexeme? cs = some (kind, text, rest)) (hmore : Apart cs more) :
    lexeme? (cs ++ more) = some (kind, text, rest ++ more) := by
  obtain ⟨rfl, hadmits, hwhole⟩ := lexeme?_eq_some_iff.1 hlex
  rw [lexeme?_eq_some_iff, List.append_assoc]
  exact ⟨rfl, hadmits, fun hname => wholeName_append (hwhole hname) hmore⟩

/-- A text that stays apart from the one in front of it is read on its own. -/
theorem scan_append_of_apart {cs more : List Char} (hmore : Apart cs more)
    (pos : Nat) :
    scan pos (cs ++ more) =
      scan pos cs >>= fun front =>
        (scan (pos + cs.length) more).map (front ++ ·) := by
  induction pos, cs using scan.induct with
  | case1 pos =>
      have hnil : scan pos [] = .ok [] := by rw [scan]
      rw [hnil]
      show scan pos more = (scan pos more).map ([] ++ ·)
      cases scan pos more <;> rfl
  | case2 pos c cs hblank ih =>
      have hrest : Apart cs more := @Apart.of_append [c] cs more hmore
      rw [List.cons_append, scan_of_blank hblank, scan_of_blank hblank, ih hrest,
        List.length_cons, Nat.add_assoc, Nat.add_comm 1]
  | case3 pos c cs hvisible hlex =>
      rw [Bool.not_eq_true] at hvisible
      have hlex' : lexeme? (c :: (cs ++ more)) = none := by
        rw [lexeme?_eq_none_iff] at hlex ⊢
        exact hlex
      rw [List.cons_append, scan_of_no_lexeme hvisible hlex,
        scan_of_no_lexeme hvisible hlex']
      rfl
  | case4 pos c cs hvisible kind text rest hlex ih =>
      rw [Bool.not_eq_true] at hvisible
      have hlength : pos + (c :: cs).length = pos + text.length + rest.length := by
        rw [← lexeme?_append hlex, List.length_append, Nat.add_assoc]
      have hrest : Apart rest more := by
        rw [← lexeme?_append hlex] at hmore
        exact hmore.of_append
      have hlex' := lexeme?_append_of_apart hlex hmore
      rw [List.cons_append] at hlex' ⊢
      rw [scan_of_lexeme hvisible hlex', scan_of_lexeme hvisible hlex, ih hrest,
        hlength]
      cases scan (pos + text.length) rest with
      | error e => rfl
      | ok front => cases scan (pos + text.length + rest.length) more <;> rfl

/-- A text that ends a name is read on its own. -/
theorem scan_append {more : List Char} (hmore : EndsName more) (pos : Nat)
    (cs : List Char) :
    scan pos (cs ++ more) =
      scan pos cs >>= fun front =>
        (scan (pos + cs.length) more).map (front ++ ·) :=
  scan_append_of_apart (hmore.apart cs) pos

theorem scan_blanks_append {blanks : List Char} (hblanks : Text.Blanks blanks)
    (pos : Nat) (cs : List Char) :
    scan pos (blanks ++ cs) = scan (pos + blanks.length) cs := by
  induction blanks generalizing pos with
  | nil => rfl
  | cons c blanks ih =>
      obtain ⟨hc, hrest⟩ := List.forall_mem_cons.1 hblanks
      rw [List.cons_append, scan_of_blank hc, ih hrest, List.length_cons,
        Nat.add_assoc, Nat.add_comm 1]

/-- Reading from a later position finds the same, only later. -/
theorem scan_shift (k pos : Nat) (cs : List Char) :
    scan (pos + k) cs =
      ((scan pos cs).map (List.map (Token.shift k))).mapError
        (IllegalChar.shift k) := by
  induction pos, cs using scan.induct with
  | case1 pos =>
      rw [scan, scan]
      rfl
  | case2 pos c cs hblank ih =>
      rw [scan_of_blank hblank, scan_of_blank hblank, Nat.add_right_comm, ih]
  | case3 pos c cs hvisible hlex =>
      rw [Bool.not_eq_true] at hvisible
      rw [scan_of_no_lexeme hvisible hlex, scan_of_no_lexeme hvisible hlex]
      rfl
  | case4 pos c cs hvisible kind text rest hlex ih =>
      rw [Bool.not_eq_true] at hvisible
      rw [scan_of_lexeme hvisible hlex, scan_of_lexeme hvisible hlex,
        Nat.add_right_comm, ih]
      cases scan (pos + text.length) rest <;> rfl

theorem scan_eq_shift (k : Nat) (source : String) :
    scan k source.toList =
      ((tokenize source).map (List.map (Token.shift k))).mapError
        (IllegalChar.shift k) := by
  rw [tokenize, ← scan_shift, Nat.zero_add]

/-! ## Blanks between texts -/

/-- The tokens of two texts with blanks between them. -/
theorem tokenize_between {a w b : String} (hw : w ≠ "")
    (hblanks : Text.Blanks w.toList) :
    tokenize (a ++ w ++ b) =
      tokenize a >>= fun front =>
        (scan (a.length + w.length) b.toList).map (front ++ ·) := by
  have hends : EndsName (w.toList ++ b.toList) := by
    cases hchars : w.toList with
    | nil => exact absurd (String.toList_eq_nil_iff.1 hchars) hw
    | cons c blanks =>
        rw [hchars] at hblanks
        exact endsName_of_isBlank (hblanks c List.mem_cons_self) _
  rw [tokenize, tokenize, String.toList_append, String.toList_append,
    List.append_assoc, scan_append hends, scan_blanks_append hblanks, Nat.zero_add,
    String.length_toList, String.length_toList]

/-- **Blanks between two texts keep their tokens apart.**  The tokens of the
second text stand later by what is in front of it, and the first illegal
character is that of the first text, if it has one. -/
theorem tokenize_append_blanks (a w b : String) (hw : w ≠ "")
    (hblanks : Text.Blanks w.toList) :
    let k := a.length + w.length
    (∀ front back, tokenize a = .ok front → tokenize b = .ok back →
        tokenize (a ++ w ++ b) = .ok (front ++ back.map (Token.shift k))) ∧
      (∀ e, tokenize a = .error e → tokenize (a ++ w ++ b) = .error e) ∧
      ∀ front e, tokenize a = .ok front → tokenize b = .error e →
        tokenize (a ++ w ++ b) = .error (e.shift k) := by
  intro k
  rw [tokenize_between hw hblanks, scan_eq_shift]
  refine ⟨?_, ?_, ?_⟩
  · intro front back hfront hback
    rw [hfront, hback]
    rfl
  · intro e hfront
    rw [hfront]
    rfl
  · intro front e hfront hback
    rw [hfront, hback]
    rfl

/-- A last dash is part of a name before a blank, and `>` is illegal after one. -/
theorem tokenize_append_blanks_dash :
    "\t\n" ≠ "" ∧ Text.Blanks "\t\n".toList ∧
      tokenize ("λx.x-" ++ "\t\n" ++ "->y") =
        .ok [⟨.lambda, "λ", 0⟩, ⟨.name, "x", 1⟩, ⟨.arrow, ".", 2⟩,
          ⟨.name, "x-", 3⟩, ⟨.arrow, "->", 7⟩, ⟨.name, "y", 9⟩] ∧
      tokenize ("λx.x-" ++ "\t\n" ++ "y >") = .error ⟨9, '>'⟩ ∧
      tokenize ("x>" ++ "\t\n" ++ "λx.x-") = .error ⟨1, '>'⟩ := by
  have hw : "\t\n" ≠ "" := by decide
  have hblanks : Text.Blanks "\t\n".toList := List.all_eq_true.1 rfl
  have hlength : "λx.x-".length + "\t\n".length = 7 := by decide
  have hfront : tokenize "λx.x-" = .ok [⟨.lambda, "λ", 0⟩, ⟨.name, "x", 1⟩,
      ⟨.arrow, ".", 2⟩, ⟨.name, "x-", 3⟩] := by
    with_unfolding_all rfl
  have hback : tokenize "->y" = .ok [⟨.arrow, "->", 0⟩, ⟨.name, "y", 2⟩] := by
    with_unfolding_all rfl
  have hlate : tokenize "y >" = .error ⟨2, '>'⟩ := by
    with_unfolding_all rfl
  have hearly : tokenize "x>" = .error ⟨1, '>'⟩ := by
    with_unfolding_all rfl
  have hjoined := tokenize_append_blanks "λx.x-" "\t\n" "->y" hw hblanks
  have hfails := tokenize_append_blanks "λx.x-" "\t\n" "y >" hw hblanks
  have hstops := tokenize_append_blanks "x>" "\t\n" "λx.x-" hw hblanks
  rw [hlength] at hjoined hfails
  exact ⟨hw, hblanks, hjoined.1 _ _ hfront hback, hfails.2.2 _ _ hfront hlate,
    hstops.2.1 _ hearly⟩

/-- Joining a line to the unfinished one before it joins their tokens. -/
theorem tokenize_joinLines {pending line : String} {front back : List Token}
    (hpending : tokenize pending = .ok front) (hline : tokenize line = .ok back) :
    tokenize (Session.joinLines pending line) =
      .ok (front ++ back.map (Token.shift (pending.length + 1))) := by
  have hspace : Text.Blanks " ".toList := List.all_eq_true.1 rfl
  rw [Session.joinLines, tokenize_between (by decide) hspace, scan_eq_shift, hpending,
    hline]
  rfl

end UntypedLambda.Grammar
