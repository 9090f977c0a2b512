import UntypedLambda.Proofs.Grammar.Derivation
import UntypedLambda.Proofs.Grammar.Segmentation

/-!
# Where a text goes wrong

A list of tokens is viable if it can be completed to a term.  Tokens that are no
term go wrong at the first one that makes them not viable, or else at their end,
where something is missing.  That is where the error is reported.  The one
exception is a parenthesis that has to be closed there: the error is reported at
the parenthesis, and it is the innermost one that is still open.

Every reading can be completed, whatever it remembers: by the rest of an
abstraction up to its body, by a name where a term has to start, and by as many
closing parentheses as there are open ones (`Reading.completes`).  So the viable
lists are those that the reading goes through (`viable_iff`), and the token that
the reading stops at is the first one to go wrong.

## Main results

* `viable_iff`: the viable lists of tokens are those that can be read on from.
* `opened_of_feeds`: a reading remembers the parentheses that are still open.
* `stillOpen_of_derives`: after a term there are none.
* `feed_eq_error`, `finish_eq_error`: the faults of a token and of the end.
* `faultAt_of_parseTokens`: the fault of some tokens is where they go wrong.
* `parse_error_at_first_fault`: where the error of a text is reported.
-/

namespace UntypedLambda.Grammar

/-! ## Viable tokens -/

/-- Some tokens after these complete them to a term. -/
def Viable (tokens : List Token) : Prop :=
  ∃ more t, Derives .term (tokens ++ more) t

/-- The tokens before an index are viable, and with the one there they are not. -/
def GoesWrongAt (tokens : List Token) (i : Nat) : Prop :=
  i < tokens.length ∧ Viable (tokens.take i) ∧ ¬ Viable (tokens.take (i + 1))

/-- The open parentheses, innermost first, after one more token. -/
def openAfter (opened : List Token) (tok : Token) : List Token :=
  match tok.kind with
  | .openParen => tok :: opened
  | .closeParen => opened.tail
  | _ => opened

/-- The parentheses that are still open after some tokens, innermost first. -/
def stillOpen (tokens : List Token) : List Token := tokens.foldl openAfter []

/-- Where the fault of some tokens is reported.  At the end of the input they are
viable, and a token is the first one to go wrong, unless it is a parenthesis that
had to be closed where they go wrong. -/
def FaultAt (tokens : List Token) (fault : Fault) : Option Token → Prop
  | none => Viable tokens
  | some tok =>
      ∃ k, (∀ i, tokens[i]? = some tok ↔ i = k) ∧
        if fault = .mismatchedParens ∧ tok.kind = .openParen then
          ∃ j, (stillOpen (tokens.take j)).head? = some tok ∧
            (j = tokens.length ∧ Viable tokens ∨ GoesWrongAt tokens j)
        else GoesWrongAt tokens k

/-! ## Completing a reading -/

/-- A list of tokens as the rest of a reading makes a term. -/
def Reading.Completes (r : Reading) (more : List Token) : Prop :=
  ∃ whole, (more.foldlM Reading.feed r >>= Reading.finish) = .ok whole

theorem Reading.Completes.cons {r r' : Reading} {tok : Token} {more : List Token}
    (hfeed : r.Feeds tok r') (h : r'.Completes more) : r.Completes (tok :: more) := by
  obtain ⟨whole, hwhole⟩ := h
  exact ⟨whole, by rw [feedAll_cons hfeed, hwhole]⟩

/-- Closing parentheses complete an application inside any frames. -/
theorem completes_closing {closing : Token} (hclosing : closing.kind = .closeParen)
    (t : Term) (frames : List Frame) :
    ∃ n, (Reading.operand (some t) frames).Completes (List.replicate n closing) := by
  induction frames generalizing t with
  | nil => exact ⟨0, t, rfl⟩
  | cons frame frames ih =>
      cases frame with
      | paren opening outer =>
          obtain ⟨n, hrest⟩ := ih (extend outer t)
          have hfeed := @Reading.Feeds.closeParen t t ⟨opening, outer, frames⟩
            (.paren opening outer :: frames) closing hclosing rfl
          exact ⟨n + 1, .cons hfeed hrest⟩
      | binder params outer =>
          -- the abstraction ends together with what is around it
          obtain ⟨n, whole, hrest⟩ := ih (extend outer (lambdas params t))
          refine ⟨n, whole, ?_⟩
          cases n with
          | zero => exact hrest
          | succ n =>
              rw [List.replicate_succ, List.foldlM_cons] at hrest ⊢
              simp only [Reading.feed, hclosing, unwind] at hrest ⊢
              exact hrest

/-- Every reading can be completed. -/
theorem Reading.completes (r : Reading) : ∃ more, r.Completes more := by
  have hoperand : ∀ head frames, ∃ more,
      (Reading.operand head frames).Completes (⟨.name, "x", 0⟩ :: more) := by
    intro head frames
    have hclosing : (⟨.closeParen, ")", 0⟩ : Token).kind = .closeParen := rfl
    obtain ⟨n, hrest⟩ :=
      completes_closing hclosing (extend head (.var "x")) frames
    exact ⟨_, .cons (.var rfl) hrest⟩
  have hheader : ∀ params outer frames, params ≠ [] → ∃ more,
      (Reading.header params outer frames).Completes (⟨.arrow, ".", 0⟩ :: more) := by
    intro params outer frames hparams
    obtain ⟨more, hrest⟩ := hoperand none (.binder params outer :: frames)
    exact ⟨_, .cons (.arrow rfl hparams) hrest⟩
  cases r with
  | operand head frames =>
      obtain ⟨more, hmore⟩ := hoperand head frames
      exact ⟨_, hmore⟩
  | header params outer frames =>
      obtain ⟨more, hmore⟩ :=
        hheader ("x" :: params) outer frames (List.cons_ne_nil _ _)
      exact ⟨⟨.name, "x", 0⟩ :: _, .cons (.param rfl) hmore⟩

/-- The viable lists of tokens are those that the reading goes through. -/
theorem viable_iff {tokens : List Token} :
    Viable tokens ↔ ∃ r, tokens.foldlM Reading.feed .start = .ok r := by
  constructor
  · rintro ⟨more, t, hder⟩
    obtain ⟨r, hfeeds, -⟩ := bind_eq_ok.1 (parseTokens_of_derives hder)
    rw [List.foldlM_append] at hfeeds
    obtain ⟨mid, hfront, -⟩ := bind_eq_ok.1 hfeeds
    exact ⟨mid, hfront⟩
  · rintro ⟨r, hfeeds⟩
    obtain ⟨more, whole, hwhole⟩ := r.completes
    refine ⟨more, whole, parseTokens_eq_ok_iff.1 ?_⟩
    rw [parseTokens, feedAll_append hfeeds]
    exact hwhole

/-! ## Open parentheses -/

/-- The parenthesis of a frame. -/
def Frame.opening? : Frame → Option Token
  | .paren opening _ => some opening
  | .binder _ _ => none

/-- The parentheses that are open in a reading, innermost first. -/
def Reading.opened : Reading → List Token
  | .operand _ frames | .header _ _ frames => frames.filterMap Frame.opening?

/-- Ending the open abstractions leads to the innermost open parenthesis. -/
theorem opened_of_unwind {t inner : Term} {frames : List Frame} {o : Opening}
    (h : unwind t frames = (inner, some o)) :
    frames.filterMap Frame.opening? =
      o.token :: o.frames.filterMap Frame.opening? := by
  induction frames generalizing t with
  | nil => cases h
  | cons frame frames ih =>
      cases frame with
      | paren opening outer =>
          cases h
          rfl
      | binder params outer => exact ih h

theorem opened_eq_nil_of_unwind {t whole : Term} {frames : List Frame}
    (h : unwind t frames = (whole, none)) :
    frames.filterMap Frame.opening? = [] := by
  induction frames generalizing t with
  | nil => rfl
  | cons frame frames ih =>
      cases frame with
      | paren opening outer => cases h
      | binder params outer => exact ih h

theorem Reading.Feeds.opened {r r' : Reading} {tok : Token}
    (h : r.Feeds tok r') : r'.opened = openAfter r.opened tok := by
  cases h with
  | param hkind | var hkind | lambda hkind | openParen hkind =>
      simp only [openAfter, hkind]
      rfl
  | arrow hkind hparams =>
      simp only [openAfter, hkind]
      rfl
  | closeParen hkind hunwind =>
      simp only [openAfter, hkind, Reading.opened, opened_of_unwind hunwind,
        List.tail_cons]

/-- What is still open after some tokens is what is open in their reading. -/
theorem opened_of_feeds {tokens : List Token} {r r' : Reading}
    (h : tokens.foldlM Reading.feed r = .ok r') :
    r'.opened = tokens.foldl openAfter r.opened := by
  induction tokens generalizing r with
  | nil =>
      cases h
      rfl
  | cons tok tokens ih =>
      rw [List.foldlM_cons, bind_eq_ok] at h
      obtain ⟨mid, hfeed, hrest⟩ := h
      rw [ih hrest, (feeds_of_feed hfeed).opened, List.foldl_cons]

/-- No parenthesis is open after a term. -/
theorem stillOpen_of_derives {tokens : List Token} {t : Term}
    (h : Derives .term tokens t) : stillOpen tokens = [] := by
  obtain ⟨u, inner, hfeeds, hunwind⟩ := h.readsAs []
  have hend : unwind u inner = (t, none) := hunwind
  calc stillOpen tokens
      = (Reading.operand (some u) inner).opened := (opened_of_feeds hfeeds).symm
    _ = [] := opened_eq_nil_of_unwind hend

theorem mem_foldl_openAfter {tokens opened : List Token} {tok : Token}
    (h : tok ∈ tokens.foldl openAfter opened) :
    tok ∈ opened ∨ tok ∈ tokens ∧ tok.kind = .openParen := by
  induction tokens generalizing opened with
  | nil => exact Or.inl h
  | cons next tokens ih =>
      rcases ih h with hopened | ⟨hmem, hkind⟩
      · unfold openAfter at hopened
        split at hopened
        · next hkind =>
            rcases List.mem_cons.1 hopened with rfl | hopened
            · exact Or.inr ⟨List.mem_cons_self, hkind⟩
            · exact Or.inl hopened
        · exact Or.inl (List.mem_of_mem_tail hopened)
        · exact Or.inl hopened
      · exact Or.inr ⟨List.mem_cons_of_mem next hmem, hkind⟩

/-- What is still open is an opening parenthesis among the tokens. -/
theorem mem_stillOpen {tokens : List Token} {tok : Token}
    (h : tok ∈ stillOpen tokens) : tok ∈ tokens ∧ tok.kind = .openParen := by
  rcases mem_foldl_openAfter h with hnil | htok
  · cases hnil
  · exact htok

/-! ## Faults -/

/-- An error is about the innermost open parenthesis of a reading. -/
def Reading.Unclosed (r : Reading) (e : ParseError) : Prop :=
  ∃ opening, r.opened.head? = some opening ∧
    e = .located .mismatchedParens (some opening)

theorem unclosed_of_unwind {t inner : Term} {frames : List Frame} {o : Opening}
    (h : unwind t frames = (inner, some o)) :
    (Reading.operand (some t) frames).Unclosed
      (.located .mismatchedParens (some o.token)) :=
  ⟨o.token, by rw [Reading.opened, opened_of_unwind h, List.head?_cons], rfl⟩

/-- A token that does not go on a reading is at fault, or a parenthesis would
have to be closed before it. -/
theorem feed_eq_error {r : Reading} {tok : Token} {e : ParseError}
    (h : r.feed tok = .error e) :
    (∃ fault, ¬ (fault = .mismatchedParens ∧ tok.kind = .openParen) ∧
        e = .located fault (some tok)) ∨ r.Unclosed e := by
  cases r with
  | header params outer frames =>
      have hat : ∃ fault, fault ≠ .mismatchedParens ∧
          e = .located fault (some tok) := by
        cases hkind : tok.kind with
        | name =>
            simp only [Reading.feed, hkind] at h
            cases h
        | arrow =>
            simp only [Reading.feed, hkind] at h
            split at h <;> cases h
            exact ⟨.noParameter, by decide, rfl⟩
        | lambda | openParen | closeParen =>
            simp only [Reading.feed, hkind] at h
            cases h
            refine ⟨_, ?_, rfl⟩
            split <;> decide
      obtain ⟨fault, hfault, he⟩ := hat
      exact Or.inl ⟨fault, fun hopen => hfault hopen.1, he⟩
  | operand head frames =>
      cases hkind : tok.kind with
      | name | lambda | openParen =>
          simp only [Reading.feed, hkind] at h
          cases h
      | closeParen =>
          refine Or.inl ?_
          simp only [Reading.feed, hkind] at h
          split at h
          · split at h <;> cases h <;> exact ⟨_, by simp, rfl⟩
          · split at h <;> cases h
            exact ⟨_, by simp, rfl⟩
      | arrow =>
          simp only [Reading.feed, hkind] at h
          split at h
          · cases h
            exact Or.inl ⟨.stray, by simp, rfl⟩
          · split at h
            · cases h
              exact Or.inl ⟨.unexpected, by simp, rfl⟩
            · next hunwind =>
                cases h
                exact Or.inr (unclosed_of_unwind hunwind)

/-- At the end something is missing, or a parenthesis is not closed. -/
theorem finish_eq_error {r : Reading} {e : ParseError} (h : r.finish = .error e) :
    r = .start ∧ e = .empty ∨ (∃ fault, e = .located fault none) ∨
      r.Unclosed e := by
  cases r with
  | header params outer frames =>
      cases h
      exact Or.inr (Or.inl ⟨_, rfl⟩)
  | operand head frames =>
      cases head with
      | none =>
          simp only [Reading.finish] at h
          split at h <;> cases h
          · exact Or.inl ⟨rfl, rfl⟩
          · exact Or.inr (Or.inl ⟨_, rfl⟩)
          · exact Or.inr (Or.inl ⟨_, rfl⟩)
      | some t =>
          simp only [Reading.finish] at h
          split at h
          · cases h
          · next hunwind =>
              cases h
              exact Or.inr (Or.inr (unclosed_of_unwind hunwind))

/-- A run that fails stops at a token. -/
theorem feedAll_eq_error {tokens : List Token} {r : Reading} {e : ParseError}
    (h : tokens.foldlM Reading.feed r = .error e) :
    ∃ front tok back mid, tokens = front ++ tok :: back ∧
      front.foldlM Reading.feed r = .ok mid ∧ mid.feed tok = .error e := by
  induction tokens generalizing r with
  | nil => cases h
  | cons tok tokens ih =>
      rw [List.foldlM_cons, bind_eq_error] at h
      rcases h with hfeed | ⟨mid, hfeed, hrest⟩
      · exact ⟨[], tok, tokens, r, rfl, rfl, hfeed⟩
      · obtain ⟨front, tok', back, last, rfl, hfront, hfault⟩ := ih hrest
        refine ⟨tok :: front, tok', back, last, rfl, ?_, hfault⟩
        rw [List.foldlM_cons, hfeed]
        exact hfront

/-- Tokens go wrong where their reading stops. -/
theorem goesWrongAt_of_feed {front : List Token} {tok : Token} {mid : Reading}
    {e : ParseError} (hfront : front.foldlM Reading.feed .start = .ok mid)
    (hfault : mid.feed tok = .error e) (back : List Token) :
    GoesWrongAt (front ++ tok :: back) front.length := by
  have htake : (front ++ tok :: back).take (front.length + 1) = front ++ [tok] := by
    rw [List.take_length_add_append, List.take_succ_cons, List.take_zero]
  refine ⟨by simp, ?_, ?_⟩
  · rw [List.take_left]
    exact viable_iff.2 ⟨mid, hfront⟩
  · rw [htake, viable_iff]
    rintro ⟨r, hfeeds⟩
    rw [feedAll_append hfront, List.foldlM_cons, hfault] at hfeeds
    cases hfeeds

/-- Only the reading of no tokens is where it was at the start. -/
theorem eq_nil_of_feeds_start {tokens : List Token}
    (h : tokens.foldlM Reading.feed .start = .ok .start) : tokens = [] := by
  have hstart : Reading.start.Writes [] := .operand .none rfl
  have hwrites : Reading.start.Writes tokens := writes_of_feeds hstart h
  generalize hr : Reading.start = r at hwrites
  cases hwrites with
  | header => cases hr
  | operand hframes hhead =>
      cases hr
      cases hframes
      cases hhead
      rfl

/-! ## The place of an error -/

/-- No two tokens of a text are equal. -/
theorem nodup_tokenize {source : String} {tokens : List Token}
    (h : tokenize source = .ok tokens) : tokens.Nodup := by
  have hseg := tokenize_eq_ok_iff_segmentation.1 h
  refine hseg.ordered.imp_of_mem ?_
  rintro t u ht - horder rfl
  have hlength := hseg.nonempty t ht
  omega

theorem getElem?_eq_some_iff_of_nodup {tokens : List Token} (h : tokens.Nodup)
    {k : Nat} {tok : Token} (hk : tokens[k]? = some tok) (i : Nat) :
    tokens[i]? = some tok ↔ i = k := by
  obtain ⟨hlt, -⟩ := List.getElem?_eq_some_iff.1 hk
  rw [← hk, eq_comm, List.getElem?_inj hlt h, eq_comm]

/-- A parenthesis that is not closed is reported where it was opened. -/
theorem faultAt_of_unclosed {tokens : List Token} (hnodup : tokens.Nodup)
    {r : Reading} {j : Nat} {opening : Token}
    (hfeeds : (tokens.take j).foldlM Reading.feed .start = .ok r)
    (hopening : r.opened.head? = some opening)
    (hwrong : j = tokens.length ∧ Viable tokens ∨ GoesWrongAt tokens j) :
    FaultAt tokens .mismatchedParens (some opening) := by
  have hopen : (stillOpen (tokens.take j)).head? = some opening := by
    rw [← hopening, opened_of_feeds hfeeds]
    rfl
  obtain ⟨hmem, hkind⟩ := mem_stillOpen (List.mem_of_mem_head? hopen)
  obtain ⟨k, hk⟩ := List.mem_iff_getElem?.1 (List.mem_of_mem_take hmem)
  refine ⟨k, getElem?_eq_some_iff_of_nodup hnodup hk, ?_⟩
  rw [if_pos ⟨rfl, hkind⟩]
  exact ⟨j, hopen, hwrong⟩

/-- The fault of some tokens is reported where they go wrong. -/
theorem faultAt_of_parseTokens {tokens : List Token} {e : ParseError}
    (hnodup : tokens.Nodup) (hne : tokens ≠ [])
    (h : parseTokens tokens = .error e) :
    ∃ fault place, e = .located fault place ∧ FaultAt tokens fault place := by
  rcases bind_eq_error.1 h with hfail | ⟨r, hfeeds, hend⟩
  · obtain ⟨front, tok, back, mid, rfl, hfront, hfault⟩ := feedAll_eq_error hfail
    have hwrong := goesWrongAt_of_feed hfront hfault back
    rcases feed_eq_error hfault with ⟨fault, hplace, rfl⟩ | ⟨opening, hopening, rfl⟩
    · have hk : (front ++ tok :: back)[front.length]? = some tok := by simp
      refine ⟨fault, some tok, rfl, front.length,
        getElem?_eq_some_iff_of_nodup hnodup hk, ?_⟩
      rw [if_neg hplace]
      exact hwrong
    · have htake : ((front ++ tok :: back).take front.length).foldlM
          Reading.feed .start = .ok mid := by
        rw [List.take_left]
        exact hfront
      exact ⟨_, _, rfl, faultAt_of_unclosed hnodup htake hopening (Or.inr hwrong)⟩
  · have hviable : Viable tokens := viable_iff.2 ⟨r, hfeeds⟩
    rcases finish_eq_error hend with
      ⟨rfl, rfl⟩ | ⟨fault, rfl⟩ | ⟨opening, hopening, rfl⟩
    · exact absurd (eq_nil_of_feeds_start hfeeds) hne
    · exact ⟨fault, none, rfl, hviable⟩
    · have hall : (tokens.take tokens.length).foldlM Reading.feed .start = .ok r := by
        rw [List.take_length]
        exact hfeeds
      exact ⟨_, _, rfl,
        faultAt_of_unclosed hnodup hall hopening (Or.inl ⟨rfl, hviable⟩)⟩

/-- **The error of a text is reported where the text goes wrong.**  The notice
spans the token that it is reported at, which stands at one place only. -/
theorem parse_error_at_first_fault {source : String} {tokens : List Token}
    {e : Error} (htokens : tokenize source = .ok tokens) (hne : tokens ≠ [])
    (herror : parse source = .error e) :
    ∃ fault place, e = .malformed (.located fault place) ∧
      FaultAt tokens fault place ∧
      ∀ tok, place = some tok →
        (e.notice source).start = tok.start ∧ (e.notice source).stop = tok.stop := by
  rcases parse_eq_error_iff.1 herror with
    ⟨illegal, rfl, hillegal⟩ | ⟨malformed, tokens', rfl, htokens', hparse⟩
  · rw [htokens] at hillegal
    cases hillegal
  · rw [htokens] at htokens'
    cases htokens'
    obtain ⟨fault, place, rfl, hplace⟩ :=
      faultAt_of_parseTokens (nodup_tokenize htokens) hne hparse
    refine ⟨fault, place, rfl, hplace, ?_⟩
    rintro tok rfl
    exact ⟨rfl, rfl⟩

/-- The second arrow would have to close the second parenthesis. -/
theorem parse_error_at_first_fault_unclosed :
    let opening : Token := ⟨.openParen, "(", 3⟩
    let tokens : List Token := [⟨.openParen, "(", 0⟩, ⟨.name, "f", 1⟩, opening,
      ⟨.lambda, "λ", 4⟩, ⟨.name, "x", 5⟩, ⟨.arrow, ".", 6⟩, ⟨.name, "x", 7⟩,
      ⟨.arrow, ".", 9⟩, ⟨.name, "y", 11⟩]
    tokenize "(f (λx.x . y" = .ok tokens ∧
      parse "(f (λx.x . y" =
        .error (.malformed (.located .mismatchedParens (some opening))) ∧
      FaultAt tokens .mismatchedParens (some opening) := by
  intro opening tokens
  have htokens : tokenize "(f (λx.x . y" = .ok tokens := by
    with_unfolding_all rfl
  have hparse : parseTokens tokens =
      .error (.located .mismatchedParens (some opening)) := rfl
  have herror := parse_eq_error_iff.2 (Or.inr ⟨_, _, rfl, htokens, hparse⟩)
  obtain ⟨fault, place, he, hplace, -⟩ :=
    parse_error_at_first_fault htokens (List.cons_ne_nil _ _) herror
  cases he
  exact ⟨htokens, herror, hplace⟩

end UntypedLambda.Grammar
