import UntypedLambda.Grammar.Diagnosis
import UntypedLambda.Proofs.Grammar.Names

/-!
# Reading a term is deriving it

The grammar is a relation between lists of tokens and terms
(`Derives phrase tokens t`), one rule for each way of building a phrase.  It
says nothing about an order of reading: where a phrase consists of two, the
tokens may be split between them anywhere.

The reading, on the other hand, is a single pass with a stack of frames.  The
two are tied together from both sides.  What a reading remembers is a sentence
of the grammar with a hole at its end: the tokens so far are those of the open
frames, outermost first, and of the application read inside them
(`Reading.Writes`).  Every token keeps this, so whatever the reading ends with
is derived.  Conversely the reading goes through the tokens of any derived
phrase and comes out with its term (`Phrase.ReadsAs`).  It need not come out
with the frames it went in with, because an abstraction stays open until
something ends it, but ending the open abstractions gives the same.

## Main results

* `Derives.readsAs`: the tokens of a phrase are read as its term.
* `writes_of_feeds`: what a reading remembers is what it has read.
* `parseTokens_eq_ok_iff`: the tokens that are read as a term are those that
  the grammar derives from it.
* `parse_iff_derives`: a text is read as a term exactly if its tokens derive
  it, no tokens derive two terms, and every other text has a lexical or a
  grammatical error.
-/

namespace UntypedLambda.Grammar

/-! ## The grammar -/

/-- The symbols of the grammar.  `atoms` stands for the repeated atoms of an
application. -/
inductive Phrase where
  | term
  | abstraction
  | application
  | atoms
  | atom

/-- The grammar derives the tokens from a phrase and makes a term of them. -/
inductive Derives : Phrase → List Token → Term → Prop where
  | abstraction {tokens : List Token} {t : Term} :
      Derives .abstraction tokens t → Derives .term tokens t
  | application {tokens : List Token} {t : Term} :
      Derives .application tokens t → Derives .term tokens t
  /-- The last parameter is closest to the body. -/
  | lambda {mark arrow : Token} {params body : List Token} {b : Term}
      (hmark : mark.kind = .lambda) (hparams : params ≠ [])
      (hnames : ∀ p ∈ params, p.kind = .name) (harrow : arrow.kind = .arrow) :
      Derives .term body b →
        Derives .abstraction (mark :: params ++ arrow :: body)
          (params.foldr (fun p c => .abs p.text c) b)
  | atoms {tokens : List Token} {t : Term} :
      Derives .atoms tokens t → Derives .application tokens t
  /-- An abstraction at the end of an application needs no parentheses. -/
  | trailing {fn arg : List Token} {f a : Term} :
      Derives .atoms fn f → Derives .abstraction arg a →
        Derives .application (fn ++ arg) (.app f a)
  | first {tokens : List Token} {t : Term} :
      Derives .atom tokens t → Derives .atoms tokens t
  | next {fn arg : List Token} {f a : Term} :
      Derives .atoms fn f → Derives .atom arg a →
        Derives .atoms (fn ++ arg) (.app f a)
  | name {tok : Token} (hname : tok.kind = .name) :
      Derives .atom [tok] (.var tok.text)
  | parens {opening closing : Token} {tokens : List Token} {t : Term}
      (hopen : opening.kind = .openParen) (hclose : closing.kind = .closeParen) :
      Derives .term tokens t →
        Derives .atom (opening :: tokens ++ [closing]) t

/-! ## What is derived is read -/

theorem Reading.Feeds.feed {r r' : Reading} {tok : Token} (h : r.Feeds tok r') :
    r.feed tok = .ok r' := by
  cases h with
  | param hkind | var hkind | lambda hkind | openParen hkind =>
      simp [Reading.feed, hkind]
  | arrow hkind hparams => simp [Reading.feed, hkind, hparams]
  | closeParen hkind hunwind => simp [Reading.feed, hkind, hunwind]

/-- A run over more tokens starts with one over the first of them. -/
theorem feedAll_cons {r r' : Reading} {tok : Token} (h : r.Feeds tok r')
    (tokens : List Token) :
    (tok :: tokens).foldlM Reading.feed r = tokens.foldlM Reading.feed r' := by
  rw [List.foldlM_cons, h.feed]
  rfl

theorem feedAll_append {r mid : Reading} {front : List Token}
    (h : front.foldlM Reading.feed r = .ok mid) (back : List Token) :
    (front ++ back).foldlM Reading.feed r = back.foldlM Reading.feed mid := by
  rw [List.foldlM_append, h]
  rfl

/-- The parameters of an abstraction are read one after another. -/
theorem feedAll_params {tokens : List Token}
    (hnames : ∀ p ∈ tokens, p.kind = .name) (params : List Name)
    (outer : Option Term) (frames : List Frame) :
    tokens.foldlM Reading.feed (.header params outer frames) =
      .ok (.header ((tokens.map Token.text).reverse ++ params) outer frames) := by
  induction tokens generalizing params with
  | nil => rfl
  | cons tok tokens ih =>
      have hkind : tok.kind = .name := hnames tok List.mem_cons_self
      have hrest : ∀ p ∈ tokens, p.kind = .name :=
        fun p hp => hnames p (List.mem_cons_of_mem tok hp)
      rw [feedAll_cons (.param hkind), ih hrest]
      simp

/-- The reading of parameters puts the last one closest to the body. -/
theorem lambdas_reverse (params : List Token) (b : Term) :
    lambdas (params.map Token.text).reverse b =
      params.foldr (fun p c => .abs p.text c) b := by
  rw [lambdas, List.foldl_reverse, List.foldr_map]

/-- Reading the tokens leads from `r` to where `t` has been read inside
`frames`, but for abstractions that are still open. -/
def Reading.LeadsTo (r : Reading) (tokens : List Token) (t : Term)
    (frames : List Frame) : Prop :=
  ∃ u inner, tokens.foldlM Reading.feed r = .ok (.operand (some u) inner) ∧
    unwind u inner = unwind t frames

/-- How the tokens of a phrase are read.  Atoms leave nothing open; an
abstraction and an atom may stand after an application, which the others
start. -/
def Phrase.ReadsAs : Phrase → List Token → Term → Prop
  | .atom, tokens, t => ∀ head frames,
      tokens.foldlM Reading.feed (.operand head frames) =
        .ok (.operand (some (extend head t)) frames)
  | .atoms, tokens, t => ∀ frames,
      tokens.foldlM Reading.feed (.operand none frames) =
        .ok (.operand (some t) frames)
  | .abstraction, tokens, t => ∀ head frames,
      (Reading.operand head frames).LeadsTo tokens (extend head t) frames
  | .application, tokens, t | .term, tokens, t => ∀ frames,
      (Reading.operand none frames).LeadsTo tokens t frames

/-- The tokens of a phrase are read as its term. -/
theorem Derives.readsAs {phrase : Phrase} {tokens : List Token} {t : Term}
    (h : Derives phrase tokens t) : phrase.ReadsAs tokens t := by
  induction h with
  | abstraction _ ih => exact fun frames => ih none frames
  | application _ ih => exact ih
  | @lambda mark arrow params body b hmark hparams hnames harrow _ ih =>
      intro head frames
      -- the frame of the abstraction stays open around its body
      obtain ⟨u, inner, hbody, hunwind⟩ :=
        ih (.binder (params.map Token.text).reverse head :: frames)
      refine ⟨u, inner, ?_, ?_⟩
      · have hheader := feedAll_params hnames [] head frames
        rw [List.append_nil] at hheader
        rw [List.cons_append, feedAll_cons (.lambda hmark),
          feedAll_append hheader,
          feedAll_cons (.arrow harrow (by simpa using hparams))]
        exact hbody
      · rw [hunwind, unwind, lambdas_reverse]
  | atoms _ ih => exact fun frames => ⟨_, frames, ih frames, rfl⟩
  | trailing _ _ ihf iha =>
      intro frames
      obtain ⟨u, inner, harg, hunwind⟩ := iha (some _) frames
      exact ⟨u, inner, (feedAll_append (ihf frames) _).trans harg, hunwind⟩
  | first _ ih => exact ih none
  | next _ _ ihf iha =>
      intro frames
      exact (feedAll_append (ihf frames) _).trans (iha (some _) frames)
  | name hname => exact fun head frames => feedAll_cons (.var hname) []
  | @parens opening closing tokens t hopen hclose _ ih =>
      intro head frames
      obtain ⟨u, inner, hbody, hunwind⟩ := ih (.paren opening head :: frames)
      have hclosed : unwind u inner = (t, some ⟨opening, head, frames⟩) := hunwind
      rw [List.cons_append, feedAll_cons (.openParen hopen),
        feedAll_append hbody]
      exact feedAll_cons (.closeParen hclose hclosed) []

theorem parseTokens_of_derives {tokens : List Token} {t : Term}
    (h : Derives .term tokens t) : parseTokens tokens = .ok t := by
  obtain ⟨u, inner, hfeeds, hunwind⟩ := h.readsAs []
  have hend : unwind u inner = (t, none) := hunwind
  refine bind_eq_ok.2 ⟨.operand (some u) inner, hfeeds, ?_⟩
  simp only [Reading.finish, hend]

/-! ## What is read is derived -/

/-- The tokens of an application read so far. -/
def WritesHead (tokens : List Token) : Option Term → Prop
  | none => tokens = []
  | some f => Derives .atoms tokens f

/-- The tokens of the frames around a position, with the applications that
they were opened in. -/
inductive WritesFrames : List Token → List Frame → Prop where
  | none : WritesFrames [] []
  | paren {before head : List Token} {opening : Token} {outer : Option Term}
      {frames : List Frame} (hopen : opening.kind = .openParen) :
      WritesFrames before frames → WritesHead head outer →
        WritesFrames (before ++ head ++ [opening]) (.paren opening outer :: frames)
  | binder {before head params : List Token} {mark arrow : Token}
      {outer : Option Term} {frames : List Frame}
      (hmark : mark.kind = .lambda) (hparams : params ≠ [])
      (hnames : ∀ p ∈ params, p.kind = .name) (harrow : arrow.kind = .arrow) :
      WritesFrames before frames → WritesHead head outer →
        WritesFrames (before ++ head ++ (mark :: params ++ [arrow]))
          (.binder (params.map Token.text).reverse outer :: frames)

/-- The tokens that a reading has been through. -/
inductive Reading.Writes : Reading → List Token → Prop where
  | operand {before tokens : List Token} {head : Option Term}
      {frames : List Frame} :
      WritesFrames before frames → WritesHead tokens head →
        Writes (.operand head frames) (before ++ tokens)
  | header {before head params : List Token} {mark : Token}
      {outer : Option Term} {frames : List Frame}
      (hmark : mark.kind = .lambda) (hnames : ∀ p ∈ params, p.kind = .name) :
      WritesFrames before frames → WritesHead head outer →
        Writes (.header (params.map Token.text).reverse outer frames)
          (before ++ head ++ mark :: params)

/-- One more atom goes on an application. -/
theorem writesHead_atom {tokens more : List Token} {head : Option Term}
    {a : Term} (hhead : WritesHead tokens head) (ha : Derives .atom more a) :
    WritesHead (tokens ++ more) (some (extend head a)) := by
  cases head with
  | none =>
      cases hhead
      exact .first ha
  | some f => exact .next hhead ha

/-- An abstraction at the end of an application makes a term. -/
theorem derives_extend {tokens more : List Token} {head : Option Term}
    {a : Term} (hhead : WritesHead tokens head)
    (ha : Derives .abstraction more a) :
    Derives .term (tokens ++ more) (extend head a) := by
  cases head with
  | none =>
      cases hhead
      exact .abstraction ha
  | some f => exact .application (.trailing hhead ha)

/-- Ending the open abstractions leaves a term, either of all tokens or of
those after the innermost open parenthesis. -/
theorem writes_unwind {before tokens : List Token} {frames : List Frame}
    {t : Term} (hframes : WritesFrames before frames)
    (ht : Derives .term tokens t) :
    match unwind t frames with
    | (whole, none) => Derives .term (before ++ tokens) whole
    | (inner, some o) => ∃ outside head inside,
        before ++ tokens = outside ++ head ++ o.token :: inside ∧
          WritesFrames outside o.frames ∧ WritesHead head o.outer ∧
          o.token.kind = .openParen ∧ Derives .term inside inner := by
  induction hframes generalizing tokens t with
  | none => exact ht
  | @paren before head opening outer frames hopen hrest hhead _ =>
      refine ⟨before, head, tokens, ?_, hrest, hhead, hopen, ht⟩
      simp
  | @binder before head params mark arrow outer frames hmark hparams hnames
      harrow hrest hhead ih =>
      have habs := Derives.lambda hmark hparams hnames harrow ht
      rw [← lambdas_reverse] at habs
      have hrec := ih (derives_extend hhead habs)
      have htokens : before ++ head ++ (mark :: params ++ [arrow]) ++ tokens =
          before ++ (head ++ (mark :: params ++ arrow :: tokens)) := by
        simp
      rw [unwind, htokens]
      exact hrec

theorem derives_of_head {tokens : List Token} {t : Term}
    (h : WritesHead tokens (some t)) : Derives .term tokens t :=
  .application (.atoms h)

/-- What a reading remembers is what it has read. -/
theorem Reading.Writes.feed {r r' : Reading} {tok : Token}
    {tokens : List Token} (h : r.Writes tokens) (hfeed : r.Feeds tok r') :
    r'.Writes (tokens ++ [tok]) := by
  cases hfeed with
  | param hkind =>
      cases h with
      | @header before head params mark _ _ hmark hnames hframes hhead =>
          have hnames' : ∀ p ∈ params ++ [tok], p.kind = .name := by
            intro p hp
            rcases List.mem_append.1 hp with hp | hp
            · exact hnames p hp
            · rw [List.mem_singleton.1 hp]
              exact hkind
          have hwrites := Reading.Writes.header hmark hnames' hframes hhead
          simpa using hwrites
  | arrow hkind hparams =>
      cases h with
      | @header before head params mark _ _ hmark hnames hframes hhead =>
          have hne : params ≠ [] := by simpa using hparams
          have hbinder := WritesFrames.binder hmark hne hnames hkind hframes hhead
          have hwrites := Reading.Writes.operand hbinder
            (show WritesHead [] none from rfl)
          simpa using hwrites
  | var hkind =>
      cases h with
      | operand hframes hhead =>
          have hmore := writesHead_atom hhead (.name hkind)
          rw [List.append_assoc]
          exact .operand hframes hmore
  | lambda hkind =>
      cases h with
      | operand hframes hhead =>
          have hnames : ∀ p ∈ ([] : List Token), p.kind = .name := by simp
          exact .header hkind hnames hframes hhead
  | openParen hkind =>
      cases h with
      | operand hframes hhead =>
          have hparen := WritesFrames.paren hkind hframes hhead
          have hwrites := Reading.Writes.operand hparen
            (show WritesHead [] none from rfl)
          simpa using hwrites
  | closeParen hkind hunwind =>
      cases h with
      | operand hframes hhead =>
          have hinner := writes_unwind hframes (derives_of_head hhead)
          rw [hunwind] at hinner
          obtain ⟨outside, head, inside, htokens, hout, hhead', hopen, hin⟩ := hinner
          have hmore := writesHead_atom hhead' (.parens hopen hkind hin)
          have hwrites := Reading.Writes.operand hout hmore
          rw [htokens]
          simpa using hwrites

theorem writes_of_feeds {more tokens : List Token} {r r' : Reading}
    (h : r.Writes tokens) (hfeeds : more.foldlM Reading.feed r = .ok r') :
    r'.Writes (tokens ++ more) := by
  induction more generalizing r tokens with
  | nil =>
      cases hfeeds
      simpa using h
  | cons tok more ih =>
      rw [List.foldlM_cons, bind_eq_ok] at hfeeds
      obtain ⟨mid, hfeed, hrest⟩ := hfeeds
      have hmid := ih (h.feed (feeds_of_feed hfeed)) hrest
      simpa using hmid

theorem derives_of_finish {r : Reading} {tokens : List Token} {t : Term}
    (h : r.Writes tokens) (hfinish : r.finish = .ok t) :
    Derives .term tokens t := by
  cases h with
  | header hmark hnames hframes hhead => simp [Reading.finish] at hfinish
  | @operand before tokens head frames hframes hhead =>
      cases head with
      | none =>
          simp only [Reading.finish] at hfinish
          split at hfinish <;> cases hfinish
      | some f =>
          have hwhole := writes_unwind hframes (derives_of_head hhead)
          simp only [Reading.finish] at hfinish
          split at hfinish
          · next hunwind =>
              cases hfinish
              rw [hunwind] at hwhole
              exact hwhole
          · cases hfinish

/-- The tokens that are read as a term are those that the grammar derives from
it. -/
theorem parseTokens_eq_ok_iff {tokens : List Token} {t : Term} :
    parseTokens tokens = .ok t ↔ Derives .term tokens t := by
  constructor
  · intro h
    obtain ⟨r, hfeeds, hfinish⟩ := bind_eq_ok.1 h
    have hstart : Reading.start.Writes [] := .operand .none rfl
    exact derives_of_finish (writes_of_feeds hstart hfeeds) hfinish
  · exact parseTokens_of_derives

/-- A list of tokens derives at most one term. -/
theorem Derives.unique {tokens : List Token} {t u : Term}
    (ht : Derives .term tokens t) (hu : Derives .term tokens u) : t = u := by
  have hparse := parseTokens_of_derives ht
  rw [parseTokens_of_derives hu] at hparse
  cases hparse
  rfl

/-! ## Reading a text -/

theorem parse_eq_ok_iff_derives {source : String} {t : Term} :
    parse source = .ok t ↔
      ∃ tokens, tokenize source = .ok tokens ∧ Derives .term tokens t := by
  simp only [parse_eq_ok_iff, parseTokens_eq_ok_iff]

theorem category_parseError (source : String) (e : ParseError) :
    (e.notice source).category = .grammatical := by
  cases e with
  | empty => rfl
  | located fault place => cases place <;> rfl

/-- A text that is not read has the lexical error that keeps it from being
split into tokens, or else the grammatical error of its tokens. -/
theorem parse_eq_error_iff {source : String} {e : Error} :
    parse source = .error e ↔
      (∃ illegal, e = .illegal illegal ∧ tokenize source = .error illegal) ∨
        ∃ malformed tokens, e = .malformed malformed ∧
          tokenize source = .ok tokens ∧
          parseTokens tokens = .error malformed := by
  unfold parse
  cases htokens : tokenize source with
  | error illegal =>
      show Except.error (Error.illegal illegal) = .error e ↔ _
      simp [eq_comm]
  | ok tokens =>
      show (parseTokens tokens).mapError Error.malformed = .error e ↔ _
      cases hparse : parseTokens tokens with
      | error malformed =>
          show Except.error (Error.malformed malformed) = .error e ↔ _
          simp [hparse, eq_comm]
      | ok t =>
          show Except.ok t = .error e ↔ _
          simp [hparse]

/-- **A text is read as a term exactly if its tokens derive the term.**  No
tokens derive two terms, and a text that is not read has a lexical error if it
does not split into tokens and a grammatical error if it does. -/
theorem parse_iff_derives :
    (∀ source t, parse source = .ok t ↔
      ∃ tokens, tokenize source = .ok tokens ∧ Derives .term tokens t) ∧
      (∀ tokens t u, Derives .term tokens t → Derives .term tokens u → t = u) ∧
      ∀ source e, parse source = .error e →
        ((∃ illegal, tokenize source = .error illegal ∧ e = .illegal illegal) ∧
            (e.notice source).category = .lexical) ∨
          ((∃ tokens malformed, tokenize source = .ok tokens ∧
              e = .malformed malformed) ∧
            (e.notice source).category = .grammatical) := by
  refine ⟨fun _ _ => parse_eq_ok_iff_derives, fun _ _ _ => Derives.unique, ?_⟩
  intro source e h
  rcases parse_eq_error_iff.1 h with
    ⟨illegal, rfl, htokens⟩ | ⟨malformed, tokens, rfl, htokens, -⟩
  · exact Or.inl ⟨⟨illegal, htokens, rfl⟩, rfl⟩
  · exact Or.inr ⟨⟨tokens, malformed, htokens, rfl⟩,
      category_parseError source malformed⟩

/-- The body of the trailing abstraction takes in everything after it. -/
theorem parse_iff_derives_trailing :
    let tokens : List Token := [⟨.name, "f", 0⟩, ⟨.lambda, "λ", 2⟩,
      ⟨.name, "x", 3⟩, ⟨.name, "y", 5⟩, ⟨.arrow, "->", 6⟩, ⟨.name, "y", 8⟩,
      ⟨.name, "x", 10⟩]
    let t := Term.app (.var "f")
      (.abs "x" (.abs "y" (.app (.var "y") (.var "x"))))
    tokenize "f λx y->y x" = .ok tokens ∧ Derives .term tokens t ∧
      parse "f λx y->y x" = .ok t ∧
      ∀ u, Derives .term tokens u → t = u := by
  intro tokens t
  have htokens : tokenize "f λx y->y x" = .ok tokens := by
    with_unfolding_all rfl
  have hbody : Derives .term [⟨.name, "y", 8⟩, ⟨.name, "x", 10⟩]
      (.app (.var "y") (.var "x")) :=
    .application (.atoms (.next (.first (.name rfl)) (.name rfl)))
  have hnames : ∀ p ∈ ([⟨.name, "x", 3⟩, ⟨.name, "y", 5⟩] : List Token),
      p.kind = .name := by simp
  have habs : Derives .abstraction (tokens.drop 1)
      (.abs "x" (.abs "y" (.app (.var "y") (.var "x")))) :=
    .lambda rfl (by simp) hnames rfl hbody
  have ht : Derives .term tokens t :=
    .application (.trailing (.first (.name rfl)) habs)
  exact ⟨htokens, ht, (parse_iff_derives.1 _ _).2 ⟨tokens, htokens, ht⟩,
    fun u => parse_iff_derives.2.1 tokens t u ht⟩

end UntypedLambda.Grammar
