import UntypedLambda.Diagnostic.Value
import UntypedLambda.Proofs.Success

/-!
# Braces in layouts and texts

Braces mean something in a template and nowhere else, so it matters where the braces
of a message can come from.  A text without braces has none in quotes either.
Fitting it into a field can only add the character that fills the field, and that
character stands alone in front of a layout whose parts have no braces: in a layout
with as many opening braces as closing ones it is no brace.

## Main results

* `Layout.fill_of_read`: where a layout that can be read may have braces.
* `braceless_quoted`, `braceless_asciiOnly`: quoted texts.
* `Value.braceless_of_fit`: a text without braces in a balanced layout.
-/

namespace UntypedLambda.Diagnostic

/-- A text without braces. -/
def Braceless (cs : List Char) : Prop := ∀ c ∈ cs, c ≠ '\x7b' ∧ c ≠ '\x7d'

instance (cs : List Char) : Decidable (Braceless cs) :=
  List.decidableBAll (fun c => c ≠ '\x7b' ∧ c ≠ '\x7d') cs

/-- A text with as many opening braces as closing ones. -/
def Balanced (cs : List Char) : Prop := cs.count '\x7b' = cs.count '\x7d'

theorem braceless_nil : Braceless [] := by simp [Braceless]

theorem braceless_cons {c : Char} {cs : List Char} :
    Braceless (c :: cs) ↔ (c ≠ '\x7b' ∧ c ≠ '\x7d') ∧ Braceless cs :=
  List.forall_mem_cons

theorem braceless_append {cs ds : List Char} :
    Braceless (cs ++ ds) ↔ Braceless cs ∧ Braceless ds :=
  List.forall_mem_append

theorem braceless_singleton {c : Char} :
    Braceless [c] ↔ c ≠ '\x7b' ∧ c ≠ '\x7d' :=
  List.forall_mem_singleton

theorem braceless_toList_append {s t : String} :
    Braceless (s ++ t).toList ↔ Braceless s.toList ∧ Braceless t.toList := by
  rw [String.toList_append, braceless_append]

/-- For a fixed text it is enough to look at its characters. -/
theorem braceless_ofList {cs : List Char} (h : Braceless cs) :
    Braceless (String.ofList cs).toList := by
  rwa [String.toList_ofList]

theorem braceless_flatMap {α : Type} {xs : List α} {f : α → List Char}
    (h : ∀ x ∈ xs, Braceless (f x)) : Braceless (xs.flatMap f) := by
  intro c hc
  obtain ⟨x, hx, hcx⟩ := List.mem_flatMap.1 hc
  exact h x hx c hcx

theorem braceless_iff_count {cs : List Char} :
    Braceless cs ↔ cs.count '\x7b' = 0 ∧ cs.count '\x7d' = 0 := by
  rw [List.count_eq_zero, List.count_eq_zero]
  constructor
  · exact fun h => ⟨fun hmem => (h _ hmem).1 rfl, fun hmem => (h _ hmem).2 rfl⟩
  · rintro ⟨hopen, hclose⟩ c hc
    constructor <;> rintro rfl <;> contradiction

/-! ## Digits -/

theorem digitChar_ne_brace {d : Nat} (hd : d < 16) :
    Nat.digitChar d ≠ '\x7b' ∧ Nat.digitChar d ≠ '\x7d' := by
  have hdigits : ∀ d < 16, Nat.digitChar d ≠ '\x7b' ∧ Nat.digitChar d ≠ '\x7d' := by decide
  exact hdigits d hd

theorem braceless_toString (n : Nat) : Braceless (toString n).toList := by
  rw [Nat.toString_eq_repr, Nat.toList_repr]
  intro c hc
  have hdigit := Nat.isDigit_of_mem_toDigits (by decide) (by decide) hc
  constructor <;> rintro rfl <;> exact absurd hdigit (by decide)

/-! ## Reading past a text without braces -/

/-- What is left of `cs` after a text without braces is `rest`. -/
def Past (cs rest : List Char) : Prop :=
  ∃ written, Braceless written ∧ cs = written ++ rest

theorem Past.refl (cs : List Char) : Past cs cs := ⟨[], braceless_nil, rfl⟩

theorem Past.trans {cs ds es : List Char} (h : Past cs ds) (h' : Past ds es) :
    Past cs es := by
  obtain ⟨w, hw, rfl⟩ := h
  obtain ⟨w', hw', rfl⟩ := h'
  exact ⟨w ++ w', braceless_append.2 ⟨hw, hw'⟩, (List.append_assoc ..).symm⟩

theorem Past.cons {c : Char} {cs ds : List Char} (hc : c ≠ '\x7b' ∧ c ≠ '\x7d')
    (h : Past cs ds) : Past (c :: cs) ds :=
  Past.trans ⟨[c], braceless_singleton.2 hc, rfl⟩ h

theorem Past.braceless {cs rest : List Char} (h : Past cs rest) (hrest : Braceless rest) :
    Braceless cs := by
  obtain ⟨w, hw, rfl⟩ := h
  exact braceless_append.2 ⟨hw, hrest⟩

/-- All braces are still to come. -/
theorem Past.count {cs rest : List Char} (h : Past cs rest) :
    cs.count '\x7b' = rest.count '\x7b' ∧ cs.count '\x7d' = rest.count '\x7d' := by
  obtain ⟨w, hw, rfl⟩ := h
  obtain ⟨hopen, hclose⟩ := braceless_iff_count.1 hw
  simp only [List.count_append, hopen, hclose, Nat.zero_add, and_self]

theorem past_takeDigits (cs : List Char) : Past cs (Text.takeDigits cs).2 := by
  induction cs with
  | nil => exact .refl []
  | cons c cs ih =>
      unfold Text.takeDigits
      split
      · next d hd =>
          have hbraces : Text.digitValue? '\x7b' = none ∧ Text.digitValue? '\x7d' = none := by
            decide
          refine .cons ⟨?_, ?_⟩ ih
          · rintro rfl
            cases hd.symm.trans hbraces.1
          · rintro rfl
            cases hd.symm.trans hbraces.2
      · exact .refl _

/-! ## Layouts -/

namespace Layout

theorem past_takeCount {cs rest : List Char} {n : Option Nat}
    (h : takeCount cs = .ok (n, rest)) : Past cs rest := by
  unfold takeCount at h
  split at h
  next digits rest' hdigits =>
    split at h
    · cases h
    · cases h
      have hpast := past_takeDigits cs
      rwa [hdigits] at hpast

theorem past_takeMark {marks cs rest : List Char} {mark : Option Char}
    (hmarks : Braceless marks) (h : takeMark marks cs = (mark, rest)) : Past cs rest := by
  cases cs with
  | nil =>
      cases h
      exact .refl []
  | cons c cs =>
      simp only [takeMark] at h
      split at h
      · next hmem =>
          cases h
          exact .cons (hmarks c hmem) (.refl _)
      · cases h
        exact .refl _

theorem mem_of_takeMark {marks cs rest : List Char} {c : Char}
    (h : takeMark marks cs = (some c, rest)) : c ∈ marks := by
  cases cs with
  | nil => cases h
  | cons d cs =>
      simp only [takeMark] at h
      split at h
      · next hmem =>
          cases h
          exact hmem
      · cases h

theorem past_takeKept {cs rest : List Char} {n : Option Nat}
    (h : takeKept cs = .ok (n, rest)) : Past cs rest := by
  unfold takeKept at h
  split at h
  · next cs =>
      obtain ⟨⟨count, rest'⟩, hcount, h⟩ := bind_eq_ok.1 h
      split at h
      · cases h
      · cases h
        exact .cons (by decide) (past_takeCount hcount)
  · cases h
    exact .refl _

/-- An alignment starts with the character that fills the field, if it has one. -/
theorem past_takeAlignment {cs rest : List Char} {fill alignment : Option Char}
    (h : takeAlignment cs = (fill, alignment, rest)) :
    ∃ cs', cs = fill.toList ++ cs' ∧ Past cs' rest := by
  have hmarks : Braceless alignmentMarks := by decide
  unfold takeAlignment at h
  split at h
  · next c mark cs =>
      split at h
      · next hmem =>
          cases h
          exact ⟨mark :: rest, rfl, .cons (hmarks mark hmem) (.refl _)⟩
      · obtain ⟨rfl, hmark⟩ := Prod.mk.inj h
        exact ⟨c :: mark :: cs, rfl, past_takeMark hmarks hmark⟩
  · obtain ⟨rfl, hmark⟩ := Prod.mk.inj h
    exact ⟨cs, rfl, past_takeMark hmarks hmark⟩

/-- What is left at the end of a layout is nothing or the letter for texts. -/
theorem braceless_of_kind {cs : List Char} (hlength : ¬ 1 < cs.length)
    (hkind : cs.head?.getD 's' = 's') : Braceless cs := by
  cases cs with
  | nil => exact braceless_nil
  | cons c rest =>
      rw [List.length_cons] at hlength
      have hrest : rest = [] := List.eq_nil_of_length_eq_zero (by omega)
      rw [List.head?_cons, Option.getD_some] at hkind
      rw [hkind, hrest]
      decide

/-- The parts of a layout that can be read: an alignment, which may name the character
that fills the field; marks; the zero that fills it otherwise; and what has no braces. -/
theorem parts_of_read {text : String} {l : Layout} (h : read text = .ok l) :
    ∃ fill cs afterMarks zero rest, text.toList = fill.toList ++ cs ∧ Past cs afterMarks ∧
      (if fill.isSome then (fill, afterMarks) else takeMark ['0'] afterMarks) = (zero, rest) ∧
      Braceless rest ∧ l.fill = zero.getD ' ' := by
  unfold read at h
  rcases halign : takeAlignment text.toList with ⟨fill, alignment, cs₁⟩
  rw [halign] at h
  rcases hsign : takeMark [' ', '+', '-'] cs₁ with ⟨sign, cs₂⟩
  rcases hsigned : takeMark ['z'] cs₂ with ⟨signedZero, cs₃⟩
  rcases halternate : takeMark ['#'] cs₃ with ⟨alternate, cs₄⟩
  rcases hzero : (if fill.isSome then (fill, cs₄) else takeMark ['0'] cs₄) with ⟨zero, cs₅⟩
  simp -zeta only [hsign, hsigned, halternate, hzero] at h
  obtain ⟨⟨width, cs₆⟩, hwidth, h⟩ := bind_eq_ok.1 h
  rcases hcomma : takeMark [','] cs₆ with ⟨comma, cs₇⟩
  rcases hunderscore : takeMark ['_'] cs₇ with ⟨underscore, cs₈⟩
  simp -zeta only [hcomma, hunderscore] at h
  obtain ⟨-, h⟩ := refuse_eq_ok.1 h
  obtain ⟨⟨kept, cs₉⟩, hkept, h⟩ := bind_eq_ok.1 h
  obtain ⟨hlength, h⟩ := refuse_eq_ok.1 h
  -- Of the checks at the end only that of the kind says something about the text.
  have hend : cs₉.head?.getD 's' = 's' ∧ l.fill = zero.getD ' ' := by
    generalize comma.or underscore = mark? at h
    cases mark?
    case' some mark => replace h := (refuse_eq_ok.1 h).2
    all_goals
      obtain ⟨hkind, h⟩ := refuse_eq_ok.1 h
      iterate 6 obtain ⟨-, h⟩ := refuse_eq_ok.1 h
      cases h
      exact ⟨Decidable.not_not.1 hkind, rfl⟩
  obtain ⟨cs, htext, hpast⟩ := past_takeAlignment halign
  have hmarks : Past cs₁ cs₄ := ((past_takeMark (by decide) hsign).trans
    (past_takeMark (by decide) hsigned)).trans (past_takeMark (by decide) halternate)
  have hgrouped : Past cs₅ cs₈ := ((past_takeCount hwidth).trans
    (past_takeMark (by decide) hcomma)).trans (past_takeMark (by decide) hunderscore)
  have hrest := (hgrouped.trans (past_takeKept hkept)).braceless
    (braceless_of_kind hlength hend.1)
  exact ⟨fill, cs, cs₄, zero, cs₅, htext, hpast.trans hmarks, hzero, hrest, hend.2⟩

/-- Of a layout that can be read only the character that fills the field can be a
brace. -/
theorem fill_of_read {text : String} {l : Layout} (h : read text = .ok l) :
    ∃ fill rest, text.toList = fill ++ rest ∧ Braceless rest ∧
      (fill = [l.fill] ∨ fill = [] ∧ Braceless [l.fill]) := by
  obtain ⟨fill, cs, afterMarks, zero, rest, htext, hpast, hzero, hrest, hfill⟩ :=
    parts_of_read h
  rw [hfill]
  cases fill with
  | some c =>
      cases hzero
      exact ⟨[c], cs, htext, hpast.braceless hrest, .inl rfl⟩
  | none =>
      have hcs := (hpast.trans (past_takeMark (by decide) hzero)).braceless hrest
      refine ⟨[], cs, htext, hcs, .inr ⟨rfl, ?_⟩⟩
      cases zero with
      | none => decide
      | some c =>
          rw [List.mem_singleton.1 (mem_of_takeMark hzero)]
          decide

/-- In a layout with as many opening braces as closing ones no brace fills the field. -/
theorem braceless_fill_of_balanced {text : String} {l : Layout} (h : read text = .ok l)
    (hbalanced : Balanced text.toList) : Braceless [l.fill] := by
  obtain ⟨fill, rest, htext, hrest, rfl | ⟨-, hfill⟩⟩ := fill_of_read h
  · obtain ⟨hopen, hclose⟩ := braceless_iff_count.1 hrest
    unfold Balanced at hbalanced
    rw [htext, List.count_append, List.count_append, hopen, hclose] at hbalanced
    refine braceless_singleton.2 ⟨fun heq => ?_, fun heq => ?_⟩
    · rw [heq] at hbalanced
      exact absurd hbalanced (by decide)
    · rw [heq] at hbalanced
      exact absurd hbalanced (by decide)
  · exact hfill

theorem braceless_apply {l : Layout} {cs : List Char} (hfill : Braceless [l.fill])
    (hcs : Braceless cs) : Braceless (l.apply cs) := by
  have hreplicate : ∀ n, Braceless (List.replicate n l.fill) := fun n c hc =>
    (List.eq_of_mem_replicate hc) ▸ braceless_singleton.1 hfill
  have hcut : Braceless (l.cut cs) := by
    unfold cut
    split
    · exact hcs
    · exact fun c hc => hcs c (List.mem_of_mem_take hc)
  exact braceless_append.2 ⟨braceless_append.2 ⟨hreplicate _, hcut⟩, hreplicate _⟩

end Layout

/-! ## Quoted texts -/

theorem braceless_hexDigits (width n : Nat) : Braceless (Text.hexDigits width n) := by
  induction width generalizing n with
  | zero => exact braceless_nil
  | succ width ih =>
      exact braceless_append.2 ⟨ih _, braceless_singleton.2
        (digitChar_ne_brace (Nat.mod_lt n (by decide)))⟩

theorem braceless_escapeCode (n : Nat) : Braceless (Text.escapeCode n) := by
  have hescape : ∀ (letter : Char) (width : Nat), Braceless [letter] →
      Braceless ('\\' :: letter :: Text.hexDigits width n) := fun letter width hletter =>
    braceless_cons.2 ⟨by decide, braceless_cons.2
      ⟨braceless_singleton.1 hletter, braceless_hexDigits width n⟩⟩
  unfold Text.escapeCode
  split
  · exact hescape 'x' 2 (by decide)
  · split
    · exact hescape 'u' 4 (by decide)
    · exact hescape 'U' 8 (by decide)

theorem braceless_quoteChar (quote : Char) {c : Char} (hc : Braceless [c]) :
    Braceless (Text.quoteChar quote c) := by
  unfold Text.quoteChar
  split
  · exact braceless_cons.2 ⟨by decide, hc⟩
  · split
    · decide
    · split
      · decide
      · split
        · decide
        · split
          · exact hc
          · exact braceless_escapeCode _

theorem braceless_quoted {s : String} (hs : Braceless s.toList) :
    Braceless (Text.quoted s).toList := by
  have hquote : Braceless [Text.quoteFor s.toList] := by
    unfold Text.quoteFor
    split <;> decide
  unfold Text.quoted
  rw [String.toList_ofList]
  refine braceless_append.2 ⟨braceless_cons.2 ⟨braceless_singleton.1 hquote, ?_⟩, hquote⟩
  exact braceless_flatMap fun c hc =>
    braceless_quoteChar _ (braceless_singleton.2 (hs c hc))

theorem braceless_asciiOnly {s : String} (hs : Braceless s.toList) :
    Braceless (Text.asciiOnly s).toList := by
  unfold Text.asciiOnly
  rw [String.toList_ofList]
  refine braceless_flatMap fun c hc => ?_
  split
  · exact braceless_singleton.2 (hs c hc)
  · exact braceless_escapeCode _

/-! ## Texts in fields -/

/-- A text without braces has none in a balanced layout either. -/
theorem Value.braceless_of_fit {s layout shown : String} (hs : Braceless s.toList)
    (hlayout : Balanced layout.toList) (h : (text s).fit layout = .ok shown) :
    Braceless shown.toList := by
  unfold fit at h
  dsimp only at h
  split at h
  · next l hl =>
      cases h
      rw [String.toList_ofList]
      exact Layout.braceless_apply (Layout.braceless_fill_of_balanced hl hlayout) hs
  · cases h

end UntypedLambda.Diagnostic
