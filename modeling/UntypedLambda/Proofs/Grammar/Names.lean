import UntypedLambda.Grammar.Parser
import UntypedLambda.Proofs.Success

/-!
# The names of a term that has been read

A name of the written form is a run of name characters, and not an empty one
(`ValidName`).  The lexer makes name tokens of such runs only, and reading a
term puts nothing but the texts of name tokens into it, whatever is still open
around the current position (`Reading.names`).  So a term that has been read
holds valid names only.

Conversely a valid name is a single token wherever it stands, as long as the
text after it does not go on with it (`EndsName`), and alone it reads as a
variable.  The name of a definition is recognized by its tokens only; since the
blanks around it are gone by then, the one token is all of it.

## Main results

* `scan_cons_ok`: the ways in which a text can be split into tokens.
* `names_parse`: every name of a term that has been read is valid.
* `scan_of_validName`: a valid name is a single token before any text that ends
  it.
* `parse_eq_var_iff`: the valid names are the texts that read as themselves.
* `validName_of_tokenize_trim`: a text without blanks around it that is a single
  name token is a valid name.
-/

namespace UntypedLambda.Grammar

/-- A run of name characters that is not empty. -/
def ValidName (x : Name) : Prop :=
  x ≠ "" ∧ ∀ c ∈ x.toList, isNameChar c = true

instance (x : Name) : Decidable (ValidName x) :=
  decidable_of_iff (x ≠ "" ∧ x.toList.all isNameChar = true)
    (and_congr Iff.rfl List.all_eq_true)

/-! ## Name tokens -/

theorem isNameChar_of_continuesName {c : Char} {rest : List Char}
    (h : continuesName c rest = true) : isNameChar c = true := by
  simp only [continuesName, Bool.and_eq_true] at h
  exact h.1

theorem isNameChar_takeName {cs : List Char} {c : Char}
    (hc : c ∈ (takeName cs).1) : isNameChar c = true := by
  induction cs with
  | nil => cases hc
  | cons d rest ih =>
      rw [takeName] at hc
      split at hc
      · next hd =>
          rcases List.mem_cons.1 hc with rfl | hc
          · exact isNameChar_of_continuesName hd
          · exact ih hc
      · cases hc

theorem isNameChar_lexeme {cs text rest : List Char}
    (hlex : lexeme? cs = some (.name, text, rest)) :
    ∀ c ∈ text, isNameChar c = true := by
  intro d hd
  unfold lexeme? at hlex
  split at hlex
  case h_8 =>
      split at hlex
      · next hc =>
          cases hlex
          rcases List.mem_cons.1 hd with rfl | hd
          · exact isNameChar_of_continuesName hc
          · exact isNameChar_takeName hd
      · cases hlex
  all_goals cases hlex

/-- A text with tokens starts with a blank, which is dropped, or with its first
token. -/
theorem scan_cons_ok {pos : Nat} {c : Char} {cs : List Char}
    {tokens : List Token} (h : scan pos (c :: cs) = .ok tokens) :
    (Text.isBlank c = true ∧ scan (pos + 1) cs = .ok tokens) ∨
      ∃ kind text rest tokens', Text.isBlank c = false ∧
        lexeme? (c :: cs) = some (kind, text, rest) ∧
        scan (pos + text.length) rest = .ok tokens' ∧
        tokens = ⟨kind, String.ofList text, pos⟩ :: tokens' := by
  rw [scan] at h
  split at h
  · next hblank => exact Or.inl ⟨hblank, h⟩
  · next hblank =>
      split at h
      · cases h
      · next kind text rest hlex =>
          obtain ⟨tokens', hrest, htokens⟩ := map_eq_ok.1 h
          exact Or.inr ⟨kind, text, rest, tokens', by simpa using hblank,
            hlex, hrest, htokens.symm⟩

/-- The text of a name token is a valid name. -/
theorem validName_of_scan {pos : Nat} {cs : List Char} {tokens : List Token}
    (h : scan pos cs = .ok tokens) :
    ∀ tok ∈ tokens, tok.kind = .name → ValidName tok.text := by
  induction hlen : cs.length using Nat.strongRecOn generalizing pos cs tokens with
  | ind n ih =>
      cases cs with
      | nil =>
          rw [scan] at h
          cases h
          intro tok htok
          cases htok
      | cons c cs =>
          rcases scan_cons_ok h with ⟨-, hrest⟩ | ⟨kind, text, rest, tokens', -, hlex, hrest, rfl⟩
          · have hlt : cs.length < n := by simp [← hlen]
            exact ih cs.length hlt hrest rfl
          · have hlt : rest.length < n := hlen ▸ length_rest_lt hlex
            intro tok htok hkind
            rcases List.mem_cons.1 htok with rfl | htok
            · have hname : kind = .name := hkind
              subst hname
              refine ⟨?_, ?_⟩
              · show String.ofList text ≠ ""
                simpa using lexeme?_ne_nil hlex
              · show ∀ c ∈ (String.ofList text).toList, isNameChar c = true
                simpa using isNameChar_lexeme hlex
            · exact ih rest.length hlt hrest rfl tok htok hkind

/-! ## The names of a reading -/

/-- The names of an application read so far. -/
def headNames (head : Option Term) : List Name :=
  match head with
  | none => []
  | some t => t.names

/-- The names that an open parenthesis or abstraction remembers. -/
def Frame.names : Frame → List Name
  | .paren _ outer => headNames outer
  | .binder params outer => params ++ headNames outer

/-- The names that a reading remembers. -/
def Reading.names : Reading → List Name
  | .operand head frames => headNames head ++ frames.flatMap Frame.names
  | .header params outer frames =>
      params ++ headNames outer ++ frames.flatMap Frame.names

theorem mem_names_extend (head : Option Term) (t : Term) (x : Name) :
    x ∈ (extend head t).names ↔ x ∈ headNames head ∨ x ∈ t.names := by
  cases head with
  | none => simp [extend, headNames]
  | some f => simp [extend, headNames, Term.names]

theorem mem_names_lambdas (params : List Name) (b : Term) (x : Name) :
    x ∈ (lambdas params b).names ↔ x ∈ params ∨ x ∈ b.names := by
  induction params generalizing b with
  | nil => simp [lambdas]
  | cons p params ih =>
      have hrest := ih (.abs p b)
      rw [Term.names, List.mem_cons] at hrest
      show x ∈ (lambdas params (.abs p b)).names ↔ _
      rw [hrest, List.mem_cons]
      constructor
      · intro h
        rcases h with h | h | h
        · exact Or.inl (Or.inr h)
        · exact Or.inl (Or.inl h)
        · exact Or.inr h
      · intro h
        rcases h with (h | h) | h
        · exact Or.inr (Or.inl h)
        · exact Or.inl h
        · exact Or.inr (Or.inr h)

/-- Ending the open abstractions keeps their names. -/
theorem mem_names_unwind (t : Term) (frames : List Frame) (x : Name) :
    (x ∈ (unwind t frames).1.names ∨
      ∃ o, (unwind t frames).2 = some o ∧
        (x ∈ headNames o.outer ∨ x ∈ o.frames.flatMap Frame.names)) ↔
      x ∈ t.names ∨ x ∈ frames.flatMap Frame.names := by
  induction frames generalizing t with
  | nil => simp [unwind]
  | cons frame frames ih =>
      cases frame with
      | paren opening outer => simp [unwind, Frame.names]
      | binder params outer =>
          rw [unwind, ih, mem_names_extend, mem_names_lambdas, List.flatMap_cons,
            List.mem_append, Frame.names, List.mem_append]
          constructor
          · intro h
            rcases h with (h | h | h) | h
            · exact Or.inr (Or.inl (Or.inr h))
            · exact Or.inr (Or.inl (Or.inl h))
            · exact Or.inl h
            · exact Or.inr (Or.inr h)
          · intro h
            rcases h with h | (h | h) | h
            · exact Or.inl (Or.inr (Or.inr h))
            · exact Or.inl (Or.inr (Or.inl h))
            · exact Or.inl (Or.inl h)
            · exact Or.inr h

/-- A token that goes on a reading, and the reading after it. -/
inductive Reading.Feeds : Reading → Token → Reading → Prop where
  | param {params : List Name} {outer : Option Term} {frames : List Frame}
      {tok : Token} (hkind : tok.kind = .name) :
      Feeds (.header params outer frames) tok
        (.header (tok.text :: params) outer frames)
  | arrow {params : List Name} {outer : Option Term} {frames : List Frame}
      {tok : Token} (hkind : tok.kind = .arrow) (hparams : params ≠ []) :
      Feeds (.header params outer frames) tok
        (.operand none (.binder params outer :: frames))
  | var {head : Option Term} {frames : List Frame} {tok : Token}
      (hkind : tok.kind = .name) :
      Feeds (.operand head frames) tok
        (.operand (some (extend head (.var tok.text))) frames)
  | lambda {head : Option Term} {frames : List Frame} {tok : Token}
      (hkind : tok.kind = .lambda) :
      Feeds (.operand head frames) tok (.header [] head frames)
  | openParen {head : Option Term} {frames : List Frame} {tok : Token}
      (hkind : tok.kind = .openParen) :
      Feeds (.operand head frames) tok (.operand none (.paren tok head :: frames))
  | closeParen {t inner : Term} {opening : Opening} {frames : List Frame}
      {tok : Token} (hkind : tok.kind = .closeParen)
      (hunwind : unwind t frames = (inner, some opening)) :
      Feeds (.operand (some t) frames) tok
        (.operand (some (extend opening.outer inner)) opening.frames)

theorem feeds_of_feed {r r' : Reading} {tok : Token} (h : r.feed tok = .ok r') :
    r.Feeds tok r' := by
  cases r with
  | header params outer frames =>
      cases hkind : tok.kind with
      | name =>
          simp only [Reading.feed, hkind] at h
          cases h
          exact .param hkind
      | arrow =>
          simp only [Reading.feed, hkind] at h
          split at h
          · cases h
          · next hparams =>
              cases h
              exact .arrow hkind hparams
      | lambda | openParen | closeParen => simp [Reading.feed, hkind] at h
  | operand head frames =>
      cases hkind : tok.kind with
      | name =>
          simp only [Reading.feed, hkind] at h
          cases h
          exact .var hkind
      | lambda =>
          simp only [Reading.feed, hkind] at h
          cases h
          exact .lambda hkind
      | openParen =>
          simp only [Reading.feed, hkind] at h
          cases h
          exact .openParen hkind
      | closeParen =>
          simp only [Reading.feed, hkind] at h
          split at h
          · split at h <;> cases h
          · split at h
            · cases h
            · next hunwind =>
                cases h
                exact .closeParen hkind hunwind
      | arrow =>
          simp only [Reading.feed, hkind] at h
          split at h
          · cases h
          · split at h <;> cases h

/-- A token adds its text to the names of a reading if it is a name, and
nothing otherwise. -/
theorem mem_names_feed {r r' : Reading} {tok : Token} (h : r.feed tok = .ok r')
    (x : Name) :
    x ∈ r'.names ↔ x ∈ r.names ∨ (tok.kind = .name ∧ x = tok.text) := by
  cases feeds_of_feed h with
  | param hkind =>
      simp only [Reading.names, List.cons_append, List.mem_cons, hkind, true_and]
      exact or_comm
  | arrow hkind hparams =>
      simp [Reading.names, headNames, Frame.names, hkind]
  | var hkind =>
      simp only [Reading.names, headNames, mem_names_extend, Term.names,
        List.mem_append, List.mem_singleton, hkind, true_and]
      exact or_right_comm
  | lambda hkind => simp [Reading.names, hkind]
  | openParen hkind => simp [Reading.names, headNames, Frame.names, hkind]
  | @closeParen t inner opening frames _ hkind hunwind =>
      have hnames := mem_names_unwind t frames x
      rw [hunwind] at hnames
      simp only [Reading.names, headNames, mem_names_extend, List.mem_append,
        hkind, reduceCtorEq, false_and, or_false]
      rw [← hnames]
      simp only [Option.some.injEq, exists_eq_left']
      constructor
      · intro h
        rcases h with (h | h) | h
        · exact Or.inr (Or.inl h)
        · exact Or.inl h
        · exact Or.inr (Or.inr h)
      · intro h
        rcases h with h | h | h
        · exact Or.inl (Or.inr h)
        · exact Or.inl (Or.inl h)
        · exact Or.inr h

theorem mem_names_finish {r : Reading} {t : Term} (h : r.finish = .ok t)
    (x : Name) : x ∈ t.names ↔ x ∈ r.names := by
  cases r with
  | header params outer frames => simp [Reading.finish] at h
  | operand head frames =>
      cases head with
      | none =>
          simp only [Reading.finish] at h
          split at h <;> cases h
      | some f =>
          have hnames := mem_names_unwind f frames x
          simp only [Reading.finish] at h
          split at h
          · next hunwind =>
              cases h
              rw [hunwind] at hnames
              simpa [Reading.names, headNames] using hnames
          · cases h

theorem mem_names_feeds {tokens : List Token} {r r' : Reading}
    (h : tokens.foldlM Reading.feed r = .ok r') (x : Name) :
    x ∈ r'.names ↔
      x ∈ r.names ∨ ∃ tok ∈ tokens, tok.kind = .name ∧ x = tok.text := by
  induction tokens generalizing r with
  | nil =>
      cases h
      simp
  | cons tok tokens ih =>
      rw [List.foldlM_cons, bind_eq_ok] at h
      obtain ⟨mid, hfeed, hrest⟩ := h
      rw [ih hrest, mem_names_feed hfeed, or_assoc]
      simp only [List.mem_cons, exists_eq_or_imp]

/-- The names of a term that tokens write are the texts of the name tokens. -/
theorem mem_names_parseTokens {tokens : List Token} {t : Term}
    (h : parseTokens tokens = .ok t) (x : Name) :
    x ∈ t.names ↔ ∃ tok ∈ tokens, tok.kind = .name ∧ x = tok.text := by
  obtain ⟨r, hfeeds, hfinish⟩ := bind_eq_ok.1 h
  rw [mem_names_finish hfinish, mem_names_feeds hfeeds]
  simp [Reading.start, Reading.names, headNames]

/-- A text reads as a term if it splits into tokens that write the term. -/
theorem parse_eq_ok_iff {source : String} {t : Term} :
    parse source = .ok t ↔
      ∃ tokens, tokenize source = .ok tokens ∧ parseTokens tokens = .ok t := by
  unfold parse
  simp only [bind_eq_ok, mapError_eq_ok]

/-- **Every name of a term that has been read is valid.** -/
theorem names_parse {source : String} {t : Term} (h : parse source = .ok t) :
    ∀ x ∈ t.names, ValidName x := by
  intro x hx
  obtain ⟨tokens, htokens, hterm⟩ := parse_eq_ok_iff.1 h
  obtain ⟨tok, htok, hkind, rfl⟩ := (mem_names_parseTokens hterm x).1 hx
  exact validName_of_scan htokens tok htok hkind

/-! ## Reading a name -/

private theorem isNameChar_visible {c : Char} (h : isNameChar c = true) :
    33 ≤ c.toNat ∧ c.toNat ≤ 126 := by
  have hmarks : ∀ d ∈ '-' :: nameMarks, 33 ≤ d.toNat ∧ d.toNat ≤ 126 := by
    simp [nameMarks]
  have hrange : ∀ lo hi : Char, 33 ≤ lo.toNat → hi.toNat ≤ 126 →
      lo.val ≤ c.val → c.val ≤ hi.val → 33 ≤ c.toNat ∧ c.toNat ≤ 126 :=
    fun lo hi hlo hhi hloc hchi =>
      ⟨Nat.le_trans hlo (UInt32.le_iff_toNat_le.1 hloc),
        Nat.le_trans (UInt32.le_iff_toNat_le.1 hchi) hhi⟩
  simp only [isNameChar, Bool.or_eq_true, decide_eq_true_eq,
    List.contains_iff_mem] at h
  rcases h with (h | h) | h
  · have hkind : (c.isUpper || c.isLower || c.isDigit) = true := h
    rw [Bool.or_eq_true, Bool.or_eq_true] at hkind
    rcases hkind with (hupper | hlower) | hdigit
    · obtain ⟨hlo, hhi⟩ := of_decide_eq_true hupper
      exact hrange 'A' 'Z' (by decide) (by decide) hlo hhi
    · obtain ⟨hlo, hhi⟩ := (Bool.and_eq_true _ _).mp hlower
      exact hrange 'a' 'z' (by decide) (by decide) (of_decide_eq_true hlo)
        (of_decide_eq_true hhi)
    · obtain ⟨hlo, hhi⟩ := (Bool.and_eq_true _ _).mp hdigit
      exact hrange '0' '9' (by decide) (by decide) (of_decide_eq_true hlo)
        (of_decide_eq_true hhi)
  · exact hmarks c (List.mem_cons_of_mem _ h)
  · exact hmarks c (h ▸ List.mem_cons_self)

theorem not_isBlank_of_isNameChar {c : Char} (h : isNameChar c = true) :
    Text.isBlank c = false := by
  have hvisible := isNameChar_visible h
  simp only [Text.isBlank, Text.blankRanges, List.any_cons, List.any_nil,
    Bool.or_eq_false_iff, Bool.and_eq_false_iff, decide_eq_false_iff_not,
    and_true]
  omega

/-- A text that goes on no name in front of it and makes no arrow with the
dash at the end of one. -/
def EndsName (rest : List Char) : Prop :=
  ∀ c, rest.head? = some c → isNameChar c = false ∧ c ≠ '>'

theorem endsName_nil : EndsName [] := by
  intro c hc
  cases hc

theorem continuesName_of_names {c : Char} {cs rest : List Char}
    (h : ∀ d ∈ c :: cs, isNameChar d = true) (hrest : EndsName rest) :
    continuesName c (cs ++ rest) = true := by
  have hc : isNameChar c = true := h c List.mem_cons_self
  have harrow : (cs ++ rest).head? ≠ some '>' := by
    intro hhead
    cases cs with
    | nil => exact (hrest '>' hhead).2 rfl
    | cons d cs =>
        cases hhead
        have hname : isNameChar '>' = true := h '>' (by simp)
        exact absurd hname (by decide)
  simp only [continuesName, hc, decide_eq_false harrow, Bool.and_false,
    Bool.not_false, Bool.and_self]

theorem takeName_of_names {cs rest : List Char}
    (h : ∀ c ∈ cs, isNameChar c = true) (hrest : EndsName rest) :
    takeName (cs ++ rest) = (cs, rest) := by
  induction cs with
  | nil =>
      cases rest with
      | nil => rfl
      | cons d rest =>
          have hd : isNameChar d = false := (hrest d rfl).1
          rw [List.nil_append, takeName, if_neg (by simp [continuesName, hd])]
  | cons c cs ih =>
      have hcs : ∀ d ∈ cs, isNameChar d = true :=
        fun d hd => h d (List.mem_cons_of_mem c hd)
      rw [List.cons_append, takeName, if_pos (continuesName_of_names h hrest),
        ih hcs]

theorem lexeme_of_names {c : Char} {cs rest : List Char}
    (h : ∀ d ∈ c :: cs, isNameChar d = true) (hrest : EndsName rest) :
    lexeme? (c :: (cs ++ rest)) = some (.name, c :: cs, rest) := by
  have hcont : continuesName c (cs ++ rest) = true :=
    continuesName_of_names h hrest
  have hname : isNameChar c = true := h c List.mem_cons_self
  have htake : takeName (cs ++ rest) = (cs, rest) :=
    takeName_of_names (fun d hd => h d (List.mem_cons_of_mem c hd)) hrest
  unfold lexeme?
  split
  case h_1 heq => cases heq
  case h_5 heq =>
      -- a dash before `>` is a name character but goes on no name
      rw [List.cons.injEq] at heq
      obtain ⟨rfl, htail⟩ := heq
      simp [continuesName, htail] at hcont
  case h_8 heq =>
      cases heq
      rw [if_pos hcont, htake]
  all_goals
    next heq =>
      rw [List.cons.injEq] at heq
      obtain ⟨rfl, -⟩ := heq
      exact absurd hname (by decide)

/-- A lexeme at the front of a text is its first token. -/
theorem scan_of_lexeme {pos : Nat} {c : Char} {cs text rest : List Char}
    {kind : Kind} (hblank : Text.isBlank c = false)
    (hlex : lexeme? (c :: cs) = some (kind, text, rest)) :
    scan pos (c :: cs) =
      (scan (pos + text.length) rest).map
        (⟨kind, String.ofList text, pos⟩ :: ·) := by
  rw [scan, if_neg (by simp [hblank])]
  split
  · next hnone =>
      rw [hlex] at hnone
      cases hnone
  · next hsome =>
      rw [hlex] at hsome
      cases hsome
      rfl

/-- A valid name is a token of its own before a text that ends it. -/
theorem scan_of_validName {x : Name} {rest : List Char} (h : ValidName x)
    (hrest : EndsName rest) (pos : Nat) :
    scan pos (x.toList ++ rest) =
      (scan (pos + x.length) rest).map (⟨.name, x, pos⟩ :: ·) := by
  obtain ⟨hne, hchars⟩ := h
  cases hx : x.toList with
  | nil => exact absurd (String.toList_eq_nil_iff.1 hx) hne
  | cons c cs =>
      rw [hx] at hchars
      have hblank : Text.isBlank c = false :=
        not_isBlank_of_isNameChar (hchars c List.mem_cons_self)
      have htext : String.ofList (c :: cs) = x := by
        rw [← hx, String.ofList_toList]
      have hlength : (c :: cs).length = x.length := by
        rw [← hx, String.length_toList]
      rw [List.cons_append,
        scan_of_lexeme hblank (lexeme_of_names hchars hrest), htext, hlength]

theorem tokenize_of_validName {x : Name} (h : ValidName x) :
    tokenize x = .ok [⟨.name, x, 0⟩] := by
  have hscan := scan_of_validName h endsName_nil 0
  rw [List.append_nil, scan] at hscan
  exact hscan

/-- **The valid names are the texts that read as themselves.** -/
theorem parse_eq_var_iff (x : Name) :
    parse x = .ok (.var x) ↔ ValidName x := by
  constructor
  · intro h
    exact names_parse h x (by simp [Term.names])
  · intro h
    rw [parse, tokenize_of_validName h]
    rfl

/-! ## Texts without blanks around them -/

theorem not_isBlank_of_trim {cs rest : List Char} {c : Char}
    (h : Text.trim cs = c :: rest) : Text.isBlank c = false := by
  obtain ⟨blanks, -, hcs⟩ := Text.trimRight_append (Text.trimLeft cs)
  have hleft : cs.dropWhile Text.isBlank = c :: (rest ++ blanks) := by
    have htrim : Text.trimRight (Text.trimLeft cs) = c :: rest := h
    rw [htrim] at hcs
    exact hcs
  have hhead := List.head?_dropWhile_not Text.isBlank cs
  rw [hleft] at hhead
  simpa using hhead

theorem not_isBlank_of_trim_append {cs init : List Char} {c : Char}
    (h : Text.trim cs = init ++ [c]) : Text.isBlank c = false := by
  have hdrop : (Text.trimLeft cs).reverse.dropWhile Text.isBlank =
      c :: init.reverse := by
    have hrev := congrArg List.reverse h
    simpa [Text.trim, Text.trimRight] using hrev
  have hhead := List.head?_dropWhile_not Text.isBlank (Text.trimLeft cs).reverse
  rw [hdrop] at hhead
  simpa using hhead

theorem isBlank_of_scan_nil {pos : Nat} {cs : List Char}
    (h : scan pos cs = .ok []) : ∀ c ∈ cs, Text.isBlank c = true := by
  induction cs generalizing pos with
  | nil =>
      intro c hc
      cases hc
  | cons d cs ih =>
      rcases scan_cons_ok h with ⟨hd, hrest⟩ | ⟨_, _, _, _, -, -, -, htokens⟩
      · intro c hc
        rcases List.mem_cons.1 hc with rfl | hc
        · exact hd
        · exact ih hrest c hc
      · cases htokens

/-- A text without blanks around it that is a single name token is that name. -/
theorem validName_of_tokenize_trim {cs : List Char} {tok : Token}
    (h : tokenize (String.ofList (Text.trim cs)) = .ok [tok])
    (hkind : tok.kind = .name) : ValidName (String.ofList (Text.trim cs)) := by
  rw [tokenize, String.toList_ofList] at h
  cases hcs : Text.trim cs with
  | nil =>
      rw [hcs, scan] at h
      cases h
  | cons c rest =>
      rw [hcs] at h
      rcases scan_cons_ok h with ⟨hblank, -⟩ |
        ⟨kind, text, after, tokens, -, hlex, hafter, htokens⟩
      · rw [not_isBlank_of_trim hcs] at hblank
        cases hblank
      · cases htokens
        have hend : after = [] := by
          rcases List.eq_nil_or_concat after with hnil | ⟨init, last, hlast⟩
          · exact hnil
          · -- the text would end in a blank
            have htrim : Text.trim cs = (text ++ init) ++ [last] := by
              rw [hcs, ← lexeme?_append hlex, hlast, List.concat_eq_append,
                List.append_assoc]
            have hblank := isBlank_of_scan_nil hafter last (by simp [hlast])
            rw [not_isBlank_of_trim_append htrim] at hblank
            cases hblank
        have hwhole : text = c :: rest := by
          rw [← lexeme?_append hlex, hend, List.append_nil]
        have hvalid := validName_of_scan h _ List.mem_cons_self hkind
        rw [← hwhole]
        exact hvalid

end UntypedLambda.Grammar
