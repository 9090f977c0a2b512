import UntypedLambda.Proofs.Grammar.Derivation
import UntypedLambda.Term.Printer

/-!
# A written term is read back

The written form of a term is put together from names, marks and the written
forms of its parts.  What a piece of it is read as does not depend on where it
stands, as long as nothing after it goes on its last name (`Spells`).  In a
written form what comes after a name is a dot, a space, a closing parenthesis
or the end, and none of these does.  So each piece is read as the phrase that
the grammar has for it: a name as an atom, an abstraction as an abstraction and
an application as a row of atoms, with parentheses around the parts that are
no atoms.

## Main results

* `spells_text`: the written form of a term with valid names is read as the
  term wherever it stands.
* `parse_text_iff`: the terms that are read back from their written form are
  those with valid names only.
-/

namespace UntypedLambda.Grammar

/-! ## Names, marks and spaces -/

/-- A character that is neither a name character nor `>` ends a name. -/
theorem endsName_cons {c : Char} (hname : isNameChar c = false) (hne : c ≠ '>')
    (rest : List Char) : EndsName (c :: rest) := by
  intro d hd
  cases hd
  exact ⟨hname, hne⟩

theorem scan_name {pos : Nat} {x : Name} {rest : List Char}
    {tokens : List Token} (hx : ValidName x) (hends : EndsName rest)
    (hrest : scan (pos + x.length) rest = .ok tokens) :
    scan pos (x.toList ++ rest) = .ok (⟨.name, x, pos⟩ :: tokens) := by
  rw [scan_of_validName hx hends, hrest]
  rfl

theorem lexeme?_lambda (cs : List Char) :
    lexeme? ('λ' :: cs) = some (.lambda, ['λ'], cs) := rfl

theorem lexeme?_dot (cs : List Char) :
    lexeme? ('.' :: cs) = some (.arrow, ['.'], cs) := rfl

theorem lexeme?_open (cs : List Char) :
    lexeme? ('(' :: cs) = some (.openParen, ['('], cs) := rfl

theorem lexeme?_close (cs : List Char) :
    lexeme? (')' :: cs) = some (.closeParen, [')'], cs) := rfl

theorem scan_mark {pos : Nat} {c : Char} {cs : List Char} {kind : Kind}
    {tokens : List Token} (hblank : Text.isBlank c = false)
    (hlex : lexeme? (c :: cs) = some (kind, [c], cs))
    (hrest : scan (pos + 1) cs = .ok tokens) :
    scan pos (c :: cs) = .ok (⟨kind, String.ofList [c], pos⟩ :: tokens) := by
  have hscan := @scan_of_lexeme pos c cs [c] cs kind hblank hlex
  rw [List.length_singleton, hrest] at hscan
  exact hscan

theorem scan_space (pos : Nat) (cs : List Char) :
    scan pos (' ' :: cs) = scan (pos + 1) cs := by
  rw [scan, if_pos (by decide)]

/-! ## Pieces of a written form -/

/-- Before a text that ends a name, the characters are the tokens of a phrase
for the term. -/
def Spells (phrase : Phrase) (cs : List Char) (t : Term) : Prop :=
  ∀ pos rest after, EndsName rest → scan (pos + cs.length) rest = .ok after →
    ∃ tokens, Derives phrase tokens t ∧
      scan pos (cs ++ rest) = .ok (tokens ++ after)

theorem Spells.of_derives {phrase phrase' : Phrase} {cs : List Char} {t : Term}
    (h : Spells phrase cs t)
    (hphrase : ∀ tokens, Derives phrase tokens t → Derives phrase' tokens t) :
    Spells phrase' cs t := by
  intro pos rest after hends hrest
  obtain ⟨tokens, hder, hscan⟩ := h pos rest after hends hrest
  exact ⟨tokens, hphrase tokens hder, hscan⟩

theorem spells_name {x : Name} (hx : ValidName x) :
    Spells .atom x.toList (.var x) := by
  intro pos rest after hends hrest
  rw [String.length_toList] at hrest
  exact ⟨[⟨.name, x, pos⟩], .name rfl, scan_name hx hends hrest⟩

theorem spells_abs {x : Name} {cs : List Char} {b : Term} (hx : ValidName x)
    (hb : Spells .term cs b) :
    Spells .abstraction ('λ' :: (x.toList ++ '.' :: cs)) (.abs x b) := by
  intro pos rest after hends hrest
  have hlength : pos + ('λ' :: (x.toList ++ '.' :: cs)).length =
      pos + 1 + x.length + 1 + cs.length := by
    simp only [List.length_cons, List.length_append, String.length_toList]
    omega
  rw [hlength] at hrest
  obtain ⟨body, hder, hbody⟩ := hb _ rest after hends hrest
  have hdot : EndsName ('.' :: (cs ++ rest)) :=
    endsName_cons (by decide) (by decide) _
  have harrow := scan_mark (by decide) (lexeme?_dot _) hbody
  have hname := scan_name hx hdot harrow
  have hmark := scan_mark (by decide) (lexeme?_lambda _) hname
  have hnames : ∀ p ∈ [(⟨.name, x, pos + 1⟩ : Token)], p.kind = .name := by simp
  have habs := @Derives.lambda ⟨.lambda, String.ofList ['λ'], pos⟩
    ⟨.arrow, String.ofList ['.'], pos + 1 + x.length⟩ _ body b rfl (by simp)
    hnames rfl hder
  refine ⟨_, habs, ?_⟩
  simpa using hmark

/-- Parentheses make an atom of any term. -/
theorem spells_parens {s : String} {t : Term}
    (ht : Spells .term s.toList t) : Spells .atom (Term.parens s).toList t := by
  intro pos rest after hends hrest
  have hparens : (Term.parens s).toList = '(' :: (s.toList ++ [')']) := by
    simp [Term.parens]
  have hlength : pos + ('(' :: (s.toList ++ [')'])).length =
      pos + 1 + s.toList.length + 1 := by
    simp only [List.length_cons, List.length_append, List.length_nil]
    omega
  rw [hparens, hlength] at hrest
  have hparen : EndsName (')' :: rest) :=
    endsName_cons (by decide) (by decide) _
  have hclose := scan_mark (by decide) (lexeme?_close _) hrest
  obtain ⟨tokens, hder, hinner⟩ := ht _ _ _ hparen hclose
  have hopen := scan_mark (by decide) (lexeme?_open _) hinner
  have hatom := @Derives.parens ⟨.openParen, String.ofList ['('], pos⟩
    ⟨.closeParen, String.ofList [')'], pos + 1 + s.toList.length⟩ tokens t rfl
    rfl hder
  refine ⟨_, hatom, ?_⟩
  rw [hparens]
  simpa using hopen

theorem spells_app {cs ds : List Char} {f a : Term} (hf : Spells .atoms cs f)
    (ha : Spells .atom ds a) : Spells .atoms (cs ++ ' ' :: ds) (.app f a) := by
  intro pos rest after hends hrest
  have hlength : pos + (cs ++ ' ' :: ds).length =
      pos + cs.length + 1 + ds.length := by
    simp only [List.length_cons, List.length_append]
    omega
  rw [hlength] at hrest
  obtain ⟨arg, harg, hds⟩ := ha _ rest after hends hrest
  have hspace : EndsName (' ' :: (ds ++ rest)) :=
    endsName_cons (by decide) (by decide) _
  rw [← scan_space] at hds
  obtain ⟨fn, hfn, hcs⟩ := hf _ _ _ hspace hds
  refine ⟨_, .next hfn harg, ?_⟩
  simpa using hcs

/-! ## Written terms -/

/-- The narrowest phrase that the written form of a term is. -/
def phraseOf : Term → Phrase
  | .var _ => .atom
  | .abs _ _ => .abstraction
  | .app _ _ => .atoms

theorem spells_term {cs : List Char} {t : Term}
    (h : Spells (phraseOf t) cs t) : Spells .term cs t := by
  cases t with
  | var x => exact h.of_derives fun _ hd => .application (.atoms (.first hd))
  | abs x b => exact h.of_derives fun _ hd => .abstraction hd
  | app f a => exact h.of_derives fun _ hd => .application (.atoms hd)

/-- The written form of a term in function position. -/
def fnText (f : Term) : String :=
  match f with
  | .abs _ _ => Term.parens f.text
  | _ => f.text

/-- The written form of a term in argument position. -/
def argText (a : Term) : String :=
  match a with
  | .var _ => a.text
  | _ => Term.parens a.text

theorem toList_text_app (f a : Term) :
    (Term.app f a).text.toList =
      (fnText f).toList ++ ' ' :: (argText a).toList := by
  have htext : (Term.app f a).text = fnText f ++ " " ++ argText a := rfl
  simp [htext]

theorem spells_fnText {f : Term} (hf : Spells (phraseOf f) f.text.toList f) :
    Spells .atoms (fnText f).toList f := by
  cases f with
  | var x => exact hf.of_derives fun _ hd => .first hd
  | abs x b =>
      have hatom := spells_parens (spells_term hf)
      exact hatom.of_derives fun _ hd => .first hd
  | app g b => exact hf

theorem spells_argText {a : Term} (ha : Spells (phraseOf a) a.text.toList a) :
    Spells .atom (argText a).toList a := by
  cases a with
  | var x => exact ha
  | abs x b | app g b => exact spells_parens (spells_term ha)

/-- The written form of a term with valid names is read as the term, wherever
it stands. -/
theorem spells_text {t : Term} (h : ∀ x ∈ t.names, ValidName x) :
    Spells (phraseOf t) t.text.toList t := by
  induction t with
  | var x => exact spells_name (h x (by simp [Term.names]))
  | abs x b ih =>
      have hx : ValidName x := h x (by simp [Term.names])
      have hb := ih fun y hy => h y (by simp [Term.names, hy])
      have htext : (Term.abs x b).text.toList =
          'λ' :: (x.toList ++ '.' :: b.text.toList) := by
        simp [Term.text]
      rw [htext]
      exact spells_abs hx (spells_term hb)
  | app f a ihf iha =>
      have hf := ihf fun y hy => h y (by simp [Term.names, hy])
      have ha := iha fun y hy => h y (by simp [Term.names, hy])
      rw [toList_text_app]
      exact spells_app (spells_fnText hf) (spells_argText ha)

theorem parse_text {t : Term} (h : ∀ x ∈ t.names, ValidName x) :
    parse t.text = .ok t := by
  have hempty : scan (0 + t.text.toList.length) [] = .ok [] := by rw [scan]
  obtain ⟨tokens, hder, hscan⟩ :=
    spells_term (spells_text h) 0 [] [] endsName_nil hempty
  rw [List.append_nil, List.append_nil] at hscan
  exact parse_eq_ok_iff_derives.2 ⟨tokens, hscan, hder⟩

/-- **A term is read back from its written form exactly if its names are
valid.**  So whatever has been read can be written and read again. -/
theorem parse_text_iff :
    (∀ t : Term, parse t.text = .ok t ↔ ∀ x ∈ t.names, ValidName x) ∧
      ∀ source t, parse source = .ok t → parse t.text = .ok t := by
  refine ⟨fun t => ⟨names_parse, parse_text⟩, ?_⟩
  intro source t hsource
  exact parse_text (names_parse hsource)

/-- Names that end in a dash stand before a dot, a space and a parenthesis. -/
theorem parse_text_iff_dash :
    let t := Term.app (.abs "x-" (.app (.var "x-") (.abs "y" (.var "x-"))))
      (.app (.var "-") (.var "y'"))
    (∀ x ∈ t.names, ValidName x) ∧ parse t.text = .ok t ∧
      t.text = "(λx-.x- (λy.x-)) (- y')" := by
  intro t
  have hnames : ∀ x ∈ t.names, ValidName x := by decide
  exact ⟨hnames, (parse_text_iff.1 t).2 hnames, by decide⟩

end UntypedLambda.Grammar
