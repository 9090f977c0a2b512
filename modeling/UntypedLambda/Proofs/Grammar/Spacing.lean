import UntypedLambda.Proofs.Grammar.Derivation
import UntypedLambda.Proofs.Grammar.Separation

/-!
# Blanks where no token is cut

What a text is read as depends on its tokens, and of these only on their kinds and
texts, not on where they stand (`Token.look`).  So it does not matter how many
blanks there are at a place where tokens are apart, and whether there are any.

## Main results

* `Derives.of_looks`: tokens that look the same derive the same terms.
* `parse_of_gap`: a term is read whatever blanks stand between two texts that are
  apart.
* `parse_trim`: a term is read without the blanks around it.
-/

namespace UntypedLambda.Grammar

open Text (Blanks)

/-- What there is to a token apart from where it stands. -/
def Token.look (tok : Token) : Kind × String := (tok.kind, tok.text)

theorem Token.look_eq_iff {tok tok' : Token} :
    tok.look = tok'.look ↔ tok.kind = tok'.kind ∧ tok.text = tok'.text := by
  rw [look, look, Prod.mk.injEq]

/-- Tokens that look like names are names. -/
theorem names_of_looks {tokens tokens' : List Token}
    (hlooks : tokens'.map Token.look = tokens.map Token.look)
    (hnames : ∀ p ∈ tokens, p.kind = .name) : ∀ p ∈ tokens', p.kind = .name := by
  intro p hp
  have hmem : p.look ∈ tokens.map Token.look := by
    rw [← hlooks]
    exact List.mem_map_of_mem hp
  obtain ⟨q, hq, hlook⟩ := List.mem_map.1 hmem
  rw [← (Token.look_eq_iff.1 hlook).1]
  exact hnames q hq

/-- The parameters of an abstraction matter only by their looks. -/
theorem foldr_looks {tokens tokens' : List Token}
    (hlooks : tokens'.map Token.look = tokens.map Token.look) (b : Term) :
    tokens'.foldr (fun p c => .abs p.text c) b =
      tokens.foldr (fun p c => .abs p.text c) b := by
  have hfold : ∀ ps : List Token, ps.foldr (fun p c => Term.abs p.text c) b =
      (ps.map Token.look).foldr (fun l c => Term.abs l.2 c) b := by
    intro ps
    rw [List.foldr_map]
    rfl
  rw [hfold, hlooks, ← hfold]

/-- Tokens that look the same derive the same terms. -/
theorem Derives.of_looks {phrase : Phrase} {tokens tokens' : List Token} {t : Term}
    (h : Derives phrase tokens t)
    (hlooks : tokens'.map Token.look = tokens.map Token.look) :
    Derives phrase tokens' t := by
  induction h generalizing tokens' with
  | abstraction _ ih => exact .abstraction (ih hlooks)
  | application _ ih => exact .application (ih hlooks)
  | atoms _ ih => exact .atoms (ih hlooks)
  | first _ ih => exact .first (ih hlooks)
  | lambda hmark hparams hnames harrow _ ih =>
      rw [List.map_append] at hlooks
      obtain ⟨front, rest, rfl, hfront, hrest⟩ := List.map_eq_append_iff.1 hlooks
      obtain ⟨mark', params', rfl, hmark', hparams'⟩ := List.map_eq_cons_iff.1 hfront
      obtain ⟨arrow', body', rfl, harrow', hbody'⟩ := List.map_eq_cons_iff.1 hrest
      have hne : params' ≠ [] := by
        rintro rfl
        exact hparams (List.map_eq_nil_iff.1 hparams'.symm)
      rw [← foldr_looks hparams']
      exact .lambda ((Token.look_eq_iff.1 hmark').1.trans hmark) hne
        (names_of_looks hparams' hnames)
        ((Token.look_eq_iff.1 harrow').1.trans harrow) (ih hbody')
  | trailing _ _ ihf iha =>
      rw [List.map_append] at hlooks
      obtain ⟨fn', arg', rfl, hfn', harg'⟩ := List.map_eq_append_iff.1 hlooks
      exact .trailing (ihf hfn') (iha harg')
  | next _ _ ihf iha =>
      rw [List.map_append] at hlooks
      obtain ⟨fn', arg', rfl, hfn', harg'⟩ := List.map_eq_append_iff.1 hlooks
      exact .next (ihf hfn') (iha harg')
  | name hname =>
      obtain ⟨tok', rfl, htok'⟩ := List.map_eq_singleton_iff.1 hlooks
      obtain ⟨hkind, htext⟩ := Token.look_eq_iff.1 htok'
      rw [← htext]
      exact .name (hkind.trans hname)
  | parens hopen hclose _ ih =>
      rw [List.map_append] at hlooks
      obtain ⟨front, rest, rfl, hfront, hrest⟩ := List.map_eq_append_iff.1 hlooks
      obtain ⟨opening', tokens', rfl, hopen', htokens'⟩ :=
        List.map_eq_cons_iff.1 hfront
      obtain ⟨closing', rfl, hclose'⟩ := List.map_eq_singleton_iff.1 hrest
      exact .parens ((Token.look_eq_iff.1 hopen').1.trans hopen)
        ((Token.look_eq_iff.1 hclose').1.trans hclose) (ih htokens')

/-- The tokens of a text look the same wherever it starts. -/
theorem looks_scan {cs : List Char} {pos : Nat} {tokens : List Token}
    (h : scan pos cs = .ok tokens) (pos' : Nat) :
    ∃ tokens', scan pos' cs = .ok tokens' ∧
      tokens'.map Token.look = tokens.map Token.look := by
  have hlooks : ∀ k, Token.look ∘ Token.shift k = Token.look := fun _ => rfl
  have hshift := scan_shift pos 0 cs
  have hshift' := scan_shift pos' 0 cs
  rw [Nat.zero_add] at hshift hshift'
  rw [hshift, mapError_eq_ok, map_eq_ok] at h
  obtain ⟨first, hfirst, rfl⟩ := h
  refine ⟨first.map (Token.shift pos'), ?_, ?_⟩
  · rw [hshift', hfirst]
    rfl
  · rw [List.map_map, List.map_map, hlooks, hlooks]

/-- **A term is read whatever blanks stand between two texts that are apart.** -/
theorem parse_of_gap {front gap gap' back : List Char} (hgap : Blanks gap)
    (hgap' : Blanks gap') (hapart : Apart front (gap ++ back))
    (hapart' : Apart front (gap' ++ back)) {t : Term}
    (h : parse (String.ofList (front ++ (gap ++ back))) = .ok t) :
    parse (String.ofList (front ++ (gap' ++ back))) = .ok t := by
  obtain ⟨tokens, htokens, hderives⟩ := parse_eq_ok_iff_derives.1 h
  rw [tokenize, String.toList_ofList, scan_append_of_apart hapart,
    scan_blanks_append hgap, bind_eq_ok] at htokens
  obtain ⟨fronts, hfronts, hback⟩ := htokens
  obtain ⟨backs, hbacks, rfl⟩ := map_eq_ok.1 hback
  obtain ⟨backs', hbacks', hlooks⟩ :=
    looks_scan hbacks (0 + front.length + gap'.length)
  refine parse_eq_ok_iff_derives.2 ⟨fronts ++ backs', ?_, hderives.of_looks ?_⟩
  · rw [tokenize, String.toList_ofList, scan_append_of_apart hapart',
      scan_blanks_append hgap', hfronts]
    show (scan _ back).map _ = _
    rw [hbacks']
    rfl
  · rw [List.map_append, List.map_append, hlooks]

/-- A term is read without the blanks before it. -/
theorem parse_of_blanks_append {blanks cs : List Char} (hblanks : Blanks blanks)
    {t : Term} (h : parse (String.ofList (blanks ++ cs)) = .ok t) :
    parse (String.ofList cs) = .ok t := by
  obtain ⟨tokens, htokens, hderives⟩ := parse_eq_ok_iff_derives.1 h
  rw [tokenize, String.toList_ofList, scan_blanks_append hblanks] at htokens
  obtain ⟨tokens', htokens', hlooks⟩ := looks_scan htokens 0
  refine parse_eq_ok_iff_derives.2 ⟨tokens', ?_, hderives.of_looks hlooks⟩
  rw [tokenize, String.toList_ofList]
  exact htokens'

theorem endsName_of_blanks {blanks : List Char} (hblanks : Blanks blanks) :
    EndsName blanks := by
  cases blanks with
  | nil => exact endsName_nil
  | cons c blanks => exact endsName_of_isBlank (hblanks c List.mem_cons_self) blanks

/-- A term is read without the blanks around it. -/
theorem parse_trim {cs : List Char} {t : Term} (h : parse (String.ofList cs) = .ok t) :
    parse (String.ofList (Text.trim cs)) = .ok t := by
  obtain ⟨before, after, hbefore, hafter, hcs⟩ := Text.trim_between cs
  rw [hcs] at h
  have hinner := parse_of_blanks_append hbefore h
  rw [← List.append_nil after] at hinner
  have hapart : Apart (Text.trim cs) (after ++ []) :=
    (endsName_of_blanks (by rwa [List.append_nil])).apart (Text.trim cs)
  have hnothing : Apart (Text.trim cs) ([] ++ []) := endsName_nil.apart (Text.trim cs)
  have hnone : Blanks [] := fun c hc => absurd hc List.not_mem_nil
  have htrim := parse_of_gap hafter hnone hapart hnothing hinner
  rwa [List.nil_append, List.append_nil] at htrim

end UntypedLambda.Grammar
