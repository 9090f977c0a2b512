import Mathlib.Data.List.Basic
import UntypedLambda.Proofs.Grammar.Names

/-!
# What a lexeme is

The lexer takes the token at the front of a text by its first characters.  Seen
from its result, a lexeme of a kind is one of the texts that the kind admits,
put before the rest.  Marks and arrows need nothing else.  A name has to be
whole: it is a run of name characters that the rest neither makes an arrow of
nor goes on with (`WholeName`).

## Main results

* `takeName_eq_iff`: the name at the front of a text is the whole one.
* `lexeme?_eq_some_iff`, `lexeme?_eq_none_iff`: the lexemes of a text, and the
  texts without one.
-/

namespace UntypedLambda.Grammar

/-- The characters that are tokens of their own wherever they stand. -/
def tokenMarks : List Char := ['λ', '\\', '.', '(', ')']

/-- The texts that the tokens of a kind may have. -/
def Kind.Admits : Kind → List Char → Prop
  | .lambda, text => text = ['λ'] ∨ text = ['\\']
  | .arrow, text => text = ['.'] ∨ text = ['-', '>']
  | .openParen, text => text = ['(']
  | .closeParen, text => text = [')']
  | .name, text => text ≠ [] ∧ ∀ c ∈ text, isNameChar c = true

/-- A run of name characters that is not split by what follows it and that
nothing of what follows belongs to. -/
structure WholeName (text rest : List Char) : Prop where
  chars : ∀ c ∈ text, isNameChar c = true
  no_arrow : text.getLast? = some '-' → rest.head? ≠ some '>'
  stops : ∀ c more, rest = c :: more → continuesName c more = false

/-! ## Names at the front of a text -/

theorem continuesName_eq_true_iff {c : Char} {rest : List Char} :
    continuesName c rest = true ↔
      isNameChar c = true ∧ (c = '-' → rest.head? ≠ some '>') := by
  simp [continuesName, Decidable.imp_iff_not_or]

/-- A name character that does not go on a name is the dash of an arrow. -/
theorem eq_dash_of_not_continuesName {c : Char} {rest : List Char}
    (hc : isNameChar c = true) (hstops : continuesName c rest = false) :
    c = '-' ∧ rest.head? = some '>' := by
  simpa [continuesName, hc] using hstops

theorem wholeName_nil_iff {c : Char} {more : List Char} :
    WholeName [] (c :: more) ↔ continuesName c more = false := by
  constructor
  · intro h
    exact h.stops c more rfl
  · intro hc
    refine ⟨by simp, by simp, ?_⟩
    intro d rest heq
    cases heq
    exact hc

theorem wholeName_cons_iff {c : Char} {text rest : List Char} :
    WholeName (c :: text) rest ↔
      continuesName c (text ++ rest) = true ∧ WholeName text rest := by
  rw [continuesName_eq_true_iff]
  constructor
  · intro h
    have hc : isNameChar c = true := h.chars c List.mem_cons_self
    have htext : ∀ d ∈ text, isNameChar d = true :=
      fun d hd => h.chars d (List.mem_cons_of_mem c hd)
    refine ⟨⟨hc, ?_⟩, htext, ?_, h.stops⟩
    · intro hdash
      cases text with
      | nil => exact h.no_arrow (by rw [hdash, List.getLast?_singleton])
      | cons d text =>
          intro hd
          cases hd
          exact absurd (htext '>' List.mem_cons_self) (by decide)
    · intro hlast
      exact h.no_arrow (by rw [List.getLast?_cons, hlast, Option.getD_some])
  · rintro ⟨⟨hc, hnext⟩, h⟩
    refine ⟨List.forall_mem_cons.2 ⟨hc, h.chars⟩, ?_, h.stops⟩
    intro hlast
    cases text with
    | nil => exact hnext (by simpa using hlast)
    | cons d text => exact h.no_arrow (by simpa using hlast)

/-- The name that is taken from the front of a text is the whole one. -/
theorem takeName_eq_iff {cs text rest : List Char} :
    takeName cs = (text, rest) ↔ cs = text ++ rest ∧ WholeName text rest := by
  induction cs generalizing text with
  | nil =>
      rw [takeName, Prod.mk.injEq]
      constructor
      · rintro ⟨rfl, rfl⟩
        exact ⟨rfl, by simp, by simp, by simp⟩
      · rintro ⟨hnil, -⟩
        obtain ⟨rfl, rfl⟩ := List.append_eq_nil_iff.1 hnil.symm
        exact ⟨rfl, rfl⟩
  | cons c cs ih =>
      rw [takeName]
      split
      · next hc =>
          rw [Prod.mk.injEq]
          constructor
          · rintro ⟨rfl, hrest⟩
            obtain ⟨happend, hwhole⟩ := ih.1 (Prod.ext rfl hrest)
            refine ⟨by rw [List.cons_append, ← happend], ?_⟩
            rw [wholeName_cons_iff, ← happend]
            exact ⟨hc, hwhole⟩
          · rintro ⟨happend, hwhole⟩
            cases text with
            | nil =>
                rw [List.nil_append] at happend
                rw [← happend, wholeName_nil_iff, hc] at hwhole
                cases hwhole
            | cons d text =>
                obtain ⟨rfl, htail⟩ := List.cons.inj happend
                have htake := ih.2 ⟨htail, (wholeName_cons_iff.1 hwhole).2⟩
                rw [htake]
                exact ⟨rfl, rfl⟩
      · next hc =>
          rw [Prod.mk.injEq]
          constructor
          · rintro ⟨rfl, rfl⟩
            exact ⟨rfl, wholeName_nil_iff.2 (by simpa using hc)⟩
          · rintro ⟨happend, hwhole⟩
            cases text with
            | nil => exact ⟨rfl, happend⟩
            | cons d text =>
                obtain ⟨rfl, rfl⟩ := List.cons.inj happend
                exact absurd (wholeName_cons_iff.1 hwhole).1 hc

/-! ## Lexemes -/

theorem not_mem_tokenMarks_of_isNameChar {c : Char} (h : isNameChar c = true) :
    c ∉ tokenMarks := by
  intro hmark
  simp only [tokenMarks, List.mem_cons, List.not_mem_nil, or_false] at hmark
  rcases hmark with rfl | rfl | rfl | rfl | rfl <;> exact absurd h (by decide)

/-- A name at the front of a text is its lexeme. -/
theorem lexeme?_of_continuesName {c : Char} {cs : List Char}
    (h : continuesName c cs = true) :
    lexeme? (c :: cs) = some (.name, c :: (takeName cs).1, (takeName cs).2) := by
  obtain ⟨hc, hdash⟩ := continuesName_eq_true_iff.1 h
  have hmark := not_mem_tokenMarks_of_isNameChar hc
  unfold lexeme?
  split
  case h_1 heq => cases heq
  case h_5 heq =>
      obtain ⟨rfl, rfl⟩ := List.cons.inj heq
      exact absurd rfl (hdash rfl)
  case h_8 heq =>
      cases heq
      rw [if_pos h]
  all_goals
    next heq =>
      obtain ⟨rfl, -⟩ := List.cons.inj heq
      exact absurd (by decide) hmark

/-- The first character of a token. -/
theorem Kind.Admits.head {kind : Kind} {c : Char} {text : List Char}
    (h : kind.Admits (c :: text)) : c ∈ tokenMarks ∨ isNameChar c = true := by
  cases kind with
  | lambda =>
      rcases h with h | h <;> cases h
      · exact Or.inl (by decide)
      · exact Or.inl (by decide)
  | arrow =>
      rcases h with h | h <;> cases h
      · exact Or.inl (by decide)
      · exact Or.inr (by decide)
  | openParen | closeParen =>
      cases h
      exact Or.inl (by decide)
  | name => exact Or.inr (h.2 c List.mem_cons_self)

theorem Kind.Admits.ne_nil {kind : Kind} {text : List Char}
    (h : kind.Admits text) : text ≠ [] := by
  rintro rfl
  cases kind with
  | lambda | arrow => rcases h with h | h <;> cases h
  | openParen | closeParen => cases h
  | name => exact h.1 rfl

/-- A token that starts with a name character is a name or the longer arrow. -/
theorem Kind.Admits.of_isNameChar {kind : Kind} {c : Char} {text : List Char}
    (h : kind.Admits (c :: text)) (hc : isNameChar c = true) :
    kind = .name ∨ c = '-' ∧ text = ['>'] := by
  have hmark := not_mem_tokenMarks_of_isNameChar hc
  cases kind with
  | lambda =>
      rcases h with h | h <;> cases h
      · exact absurd (by decide) hmark
      · exact absurd (by decide) hmark
  | arrow =>
      rcases h with h | h <;> cases h
      · exact absurd (by decide) hmark
      · exact Or.inr ⟨rfl, rfl⟩
  | openParen | closeParen =>
      cases h
      exact absurd (by decide) hmark
  | name => exact Or.inl rfl

/-- A token with a dash in it is a name or the longer arrow. -/
theorem Kind.Admits.of_dash {kind : Kind} {text : List Char}
    (h : kind.Admits text) (hdash : '-' ∈ text) : kind = .name ∨ kind = .arrow := by
  cases kind with
  | lambda => rcases h with rfl | rfl <;> exact absurd hdash (by decide)
  | arrow => exact Or.inr rfl
  | openParen | closeParen =>
      cases h
      exact absurd hdash (by decide)
  | name => exact Or.inl rfl

/-- The characters of a token are marks and name characters, but for the `>` of
an arrow. -/
theorem Kind.Admits.getElem? {kind : Kind} {text : List Char}
    (h : kind.Admits text) {j : Nat} {c : Char} (hc : text[j]? = some c) :
    c ∈ tokenMarks ∨ isNameChar c = true ∨ text = ['-', '>'] ∧ j = 1 ∧ c = '>' := by
  have hmem := List.mem_of_getElem? hc
  cases kind with
  | lambda =>
      rcases h with rfl | rfl <;>
        exact Or.inl (by rw [List.mem_singleton.1 hmem]; decide)
  | arrow =>
      rcases h with rfl | rfl
      · exact Or.inl (by rw [List.mem_singleton.1 hmem]; decide)
      · match j, hc with
        | 0, rfl => exact Or.inr (Or.inl (by decide))
        | 1, rfl => exact Or.inr (Or.inr ⟨rfl, rfl, rfl⟩)
  | openParen | closeParen =>
      cases h
      exact Or.inl (by rw [List.mem_singleton.1 hmem]; decide)
  | name => exact Or.inr (Or.inl (h.2 c hmem))

/-- No character of a token is blank. -/
theorem Kind.Admits.not_isBlank {kind : Kind} {text : List Char}
    (h : kind.Admits text) {c : Char} (hc : c ∈ text) :
    Text.isBlank c = false := by
  cases kind with
  | lambda =>
      rcases h with rfl | rfl <;> (rw [List.mem_singleton.1 hc]; decide)
  | arrow =>
      rcases h with rfl | rfl
      · rw [List.mem_singleton.1 hc]
        decide
      · rcases List.mem_pair.1 hc with rfl | rfl <;> decide
  | openParen | closeParen =>
      cases h
      rw [List.mem_singleton.1 hc]
      decide
  | name => exact not_isBlank_of_isNameChar (h.2 c hc)

/-- A lexeme is a text that its kind admits, put before the rest; a name is
whole. -/
theorem lexeme?_eq_some_iff {cs text rest : List Char} {kind : Kind} :
    lexeme? cs = some (kind, text, rest) ↔
      cs = text ++ rest ∧ kind.Admits text ∧
        (kind = .name → WholeName text rest) := by
  constructor
  · intro hlex
    refine ⟨(lexeme?_append hlex).symm, ?_⟩
    unfold lexeme? at hlex
    split at hlex
    case h_1 => cases hlex
    case h_8 c cs _ _ _ _ _ _ =>
        split at hlex
        · next hc =>
            cases hlex
            have hwhole : WholeName (c :: (takeName cs).1) (takeName cs).2 := by
              rw [wholeName_cons_iff, takeName_append]
              exact ⟨hc, (takeName_eq_iff.1 rfl).2⟩
            exact ⟨⟨List.cons_ne_nil _ _, hwhole.chars⟩, fun _ => hwhole⟩
        · cases hlex
    all_goals
      cases hlex
      simp [Kind.Admits]
  · rintro ⟨rfl, hadmits, hwhole⟩
    cases kind with
    | lambda | arrow => rcases hadmits with rfl | rfl <;> rfl
    | openParen | closeParen =>
        cases hadmits
        rfl
    | name =>
        obtain ⟨hne, -⟩ := hadmits
        obtain ⟨c, text, rfl⟩ := List.exists_cons_of_ne_nil hne
        obtain ⟨hc, htail⟩ := wholeName_cons_iff.1 (hwhole rfl)
        have htake : takeName (text ++ rest) = (text, rest) :=
          takeName_eq_iff.2 ⟨rfl, htail⟩
        rw [List.cons_append, lexeme?_of_continuesName hc, htake]

/-- A text starts with a lexeme unless its first character is neither a mark
nor a name character. -/
theorem lexeme?_eq_none_iff {c : Char} {cs : List Char} :
    lexeme? (c :: cs) = none ↔ c ∉ tokenMarks ∧ isNameChar c = false := by
  constructor
  · intro hnone
    refine ⟨?_, Bool.eq_false_iff.2 ?_⟩
    · intro hmark
      simp only [tokenMarks, List.mem_cons, List.not_mem_nil, or_false] at hmark
      rcases hmark with rfl | rfl | rfl | rfl | rfl <;> cases hnone
    · intro hname
      cases hc : continuesName c cs with
      | true =>
          rw [lexeme?_of_continuesName hc] at hnone
          cases hnone
      | false =>
          obtain ⟨rfl, hhead⟩ := eq_dash_of_not_continuesName hname hc
          obtain ⟨more, rfl⟩ := List.head?_eq_some_iff.1 hhead
          cases hnone
  · rintro ⟨hmark, hname⟩
    cases hlex : lexeme? (c :: cs) with
    | none => rfl
    | some lexeme =>
        obtain ⟨kind, text, rest⟩ := lexeme
        obtain ⟨happend, hadmits, -⟩ := lexeme?_eq_some_iff.1 hlex
        obtain ⟨d, ds, rfl⟩ := List.exists_cons_of_ne_nil hadmits.ne_nil
        obtain ⟨rfl, -⟩ := List.cons.inj happend
        rcases hadmits.head with hc | hc
        · exact absurd hc hmark
        · rw [hc] at hname
          cases hname

/-! ## The lexer, one step at a time -/

theorem scan_of_blank {pos : Nat} {c : Char} {cs : List Char}
    (hblank : Text.isBlank c = true) : scan pos (c :: cs) = scan (pos + 1) cs := by
  rw [scan, if_pos hblank]

theorem scan_of_no_lexeme {pos : Nat} {c : Char} {cs : List Char}
    (hblank : Text.isBlank c = false) (hlex : lexeme? (c :: cs) = none) :
    scan pos (c :: cs) = .error ⟨pos, c⟩ := by
  rw [scan, if_neg (by simp [hblank])]
  split
  · rfl
  · next hsome =>
      rw [hlex] at hsome
      cases hsome

/-- What follows the lexeme at a position stands after its last character. -/
theorem drop_of_lexeme {cs front text rest : List Char} {pos : Nat} {kind : Kind}
    (hfront : cs.drop pos = front)
    (hlex : lexeme? front = some (kind, text, rest)) :
    cs.drop (pos + text.length) = rest := by
  rw [← List.drop_drop, hfront, ← lexeme?_append hlex, List.drop_left]

end UntypedLambda.Grammar
