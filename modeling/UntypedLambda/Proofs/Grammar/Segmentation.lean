import UntypedLambda.Proofs.Grammar.Lexeme

/-!
# The tokens of a text are its only segmentation

A segmentation of a text says where the tokens are without saying how to find
them (`Segmentation`).  Each token is the piece of the text at its span and looks
like a token of its kind, the spans follow one another and cover all characters
but the blank ones, a dash before `>` is part of an arrow, and no name touches
the next one.

The lexer reads from left to right, so the two are compared from a position on
(`SegmentedFrom`).  At a blank no token starts, and the segmentations from there
are those from the next position.  At any other character a token has to start,
and what the conditions leave for it is the lexeme: a name that were shorter would
touch the next name, and one that were longer would take in the dash of an arrow.

## Main results

* `SegmentedFrom.first`, `SegmentedFrom.cons`: a segmentation starts with the
  lexeme, and any segmentation of what follows goes on with it.
* `scan_eq_ok_iff_segmentedFrom`: the lexer finds a segmentation if there is one.
* `tokenize_only_segmentation`: the tokens of a text are its only segmentation.
-/

namespace UntypedLambda.Grammar

/-- A token covers the positions of its characters. -/
def Token.Covers (t : Token) (i : Nat) : Prop := t.start ≤ i ∧ i < t.stop

/-- The tokens are what a text consists of from a position on. -/
structure SegmentedFrom (cs : List Char) (pos : Nat) (tokens : List Token) :
    Prop where
  from_pos : ∀ t ∈ tokens, pos ≤ t.start
  text_eq : ∀ t ∈ tokens, t.text.toList = cs.extract t.start t.stop
  nonempty : ∀ t ∈ tokens, t.start < t.stop
  ordered : tokens.Pairwise fun t u => t.stop ≤ u.start
  covered_iff : ∀ i c, pos ≤ i → cs[i]? = some c →
    ((∃ t ∈ tokens, t.Covers i) ↔ Text.isBlank c = false)
  admitted : ∀ t ∈ tokens, t.kind.Admits t.text.toList
  arrows : ∀ i, pos ≤ i → cs[i]? = some '-' → cs[i + 1]? = some '>' →
    ∃ t ∈ tokens, t.kind = .arrow ∧ t.Covers i
  names_apart : ∀ t ∈ tokens, ∀ u ∈ tokens, t.kind = .name → u.kind = .name →
    t.stop ≠ u.start

/-- The tokens are what a text consists of. -/
def Segmentation (source : String) (tokens : List Token) : Prop :=
  SegmentedFrom source.toList 0 tokens

/-! ## Positions and spans -/

theorem getElem?_of_drop {cs more : List Char} {pos : Nat} {c : Char}
    (h : cs.drop pos = c :: more) : cs[pos]? = some c := by
  rw [← Nat.add_zero pos, ← List.getElem?_drop, h, List.getElem?_cons_zero]

theorem getElem?_succ_of_drop {cs more : List Char} {pos : Nat} {c : Char}
    (h : cs.drop pos = c :: more) : cs[pos + 1]? = more.head? := by
  rw [← List.getElem?_drop, h, List.getElem?_cons_succ, List.head?_eq_getElem?]

theorem drop_succ_of_drop {cs more : List Char} {pos : Nat} {c : Char}
    (h : cs.drop pos = c :: more) : cs.drop (pos + 1) = more := by
  rw [← List.tail_drop, h, List.tail_cons]

/-- A piece of a text stands in front of what follows it. -/
theorem eq_extract_iff {cs text : List Char} {start : Nat} :
    text = cs.extract start (start + text.length) ↔
      cs.drop start = text ++ cs.drop (start + text.length) := by
  rw [List.extract_eq_take_drop, Nat.add_sub_cancel_left, ← List.drop_drop]
  constructor
  · intro h
    calc cs.drop start
        = (cs.drop start).take text.length ++ (cs.drop start).drop text.length :=
          (List.take_append_drop _ _).symm
      _ = text ++ (cs.drop start).drop text.length := by rw [← h]
  · intro h
    rw [h, List.take_left]

theorem SegmentedFrom.drop_start {cs : List Char} {pos : Nat}
    {tokens : List Token} (h : SegmentedFrom cs pos tokens) {t : Token}
    (ht : t ∈ tokens) :
    cs.drop t.start = t.text.toList ++ cs.drop t.stop := by
  have htext := h.text_eq t ht
  rw [Token.stop, ← String.length_toList] at htext ⊢
  exact eq_extract_iff.1 htext

/-- Tokens that follow one another do not share a position. -/
theorem eq_of_covers {tokens : List Token}
    (hordered : tokens.Pairwise fun t u => t.stop ≤ u.start) {t u : Token}
    (ht : t ∈ tokens) (hu : u ∈ tokens) {i : Nat} (hti : t.Covers i)
    (hui : u.Covers i) : t = u := by
  obtain ⟨htlo, hthi⟩ := hti
  obtain ⟨hulo, huhi⟩ := hui
  induction tokens with
  | nil => cases ht
  | cons v tokens ih =>
      obtain ⟨hv, htail⟩ := List.pairwise_cons.1 hordered
      rcases List.mem_cons.1 ht with rfl | htmem
      · rcases List.mem_cons.1 hu with rfl | humem
        · rfl
        · have hafter := hv u humem
          omega
      · rcases List.mem_cons.1 hu with rfl | humem
        · have hafter := hv t htmem
          omega
        · exact ih htail htmem humem

/-- No token starts at or after the end of a text. -/
theorem segmentedFrom_end_iff {cs : List Char} {pos : Nat} {tokens : List Token}
    (hend : cs.drop pos = []) : SegmentedFrom cs pos tokens ↔ tokens = [] := by
  have hlength : cs.length ≤ pos := List.drop_eq_nil_iff.1 hend
  constructor
  · intro h
    rw [List.eq_nil_iff_forall_not_mem]
    intro t ht
    have hpos := h.from_pos t ht
    have hnil : cs.drop t.start = [] := List.drop_eq_nil_iff.2 (by omega)
    have hdrop := h.drop_start ht
    rw [hnil] at hdrop
    exact (h.admitted t ht).ne_nil (List.append_eq_nil_iff.1 hdrop.symm).1
  · rintro rfl
    have hnone : ∀ i, pos ≤ i → cs[i]? = none :=
      fun i hi => List.getElem?_eq_none (by omega)
    refine ⟨by simp, by simp, by simp, .nil, ?_, by simp, ?_, by simp⟩
    · intro i c hi hc
      rw [hnone i hi] at hc
      cases hc
    · intro i hi hc
      rw [hnone i hi] at hc
      cases hc

/-- No token starts at a blank. -/
theorem segmentedFrom_blank_iff {cs : List Char} {pos : Nat} {c : Char}
    {tokens : List Token} (hc : cs[pos]? = some c)
    (hblank : Text.isBlank c = true) :
    SegmentedFrom cs pos tokens ↔ SegmentedFrom cs (pos + 1) tokens := by
  constructor
  · intro h
    refine ⟨?_, h.text_eq, h.nonempty, h.ordered, ?_, h.admitted, ?_,
      h.names_apart⟩
    · intro t ht
      have hpos := h.from_pos t ht
      rcases Nat.lt_or_eq_of_le hpos with hlt | rfl
      · exact hlt
      · have hvisible := (h.covered_iff _ c hpos hc).1
          ⟨t, ht, Nat.le_refl _, h.nonempty t ht⟩
        rw [hblank] at hvisible
        cases hvisible
    · exact fun i d hi => h.covered_iff i d (Nat.le_of_succ_le hi)
    · exact fun i hi => h.arrows i (Nat.le_of_succ_le hi)
  · intro h
    refine ⟨fun t ht => Nat.le_of_succ_le (h.from_pos t ht), h.text_eq, h.nonempty,
      h.ordered, ?_, h.admitted, ?_, h.names_apart⟩
    · intro i d hi hd
      rcases Nat.lt_or_eq_of_le hi with hlt | rfl
      · exact h.covered_iff i d hlt hd
      · rw [hc] at hd
        cases hd
        constructor
        · rintro ⟨t, ht, hstart, -⟩
          have := h.from_pos t ht
          omega
        · intro hvisible
          rw [hblank] at hvisible
          cases hvisible
    · intro i hi hdash
      rcases Nat.lt_or_eq_of_le hi with hlt | rfl
      · exact h.arrows i hlt hdash
      · rw [hc] at hdash
        cases hdash
        exact absurd hblank (by decide)

/-! ## The first token -/

/-- Where a text has a character that is not blank, the first token starts, and
the other tokens are what the rest consists of. -/
theorem SegmentedFrom.uncons {cs : List Char} {pos : Nat} {c : Char}
    {tokens : List Token} (h : SegmentedFrom cs pos tokens)
    (hc : cs[pos]? = some c) (hvisible : Text.isBlank c = false) :
    ∃ t others, tokens = t :: others ∧ t.start = pos ∧
      SegmentedFrom cs t.stop others := by
  obtain ⟨u, hu, hulo, huhi⟩ :=
    (h.covered_iff pos c (Nat.le_refl pos) hc).2 hvisible
  obtain ⟨t, others, rfl⟩ := List.exists_cons_of_ne_nil (List.ne_nil_of_mem hu)
  obtain ⟨hafter, hordered⟩ := List.pairwise_cons.1 h.ordered
  have hothers : ∀ v ∈ others, v ∈ t :: others :=
    fun v hv => List.mem_cons_of_mem t hv
  have hpos := h.from_pos t List.mem_cons_self
  have hlength := h.nonempty t List.mem_cons_self
  -- the token at this position comes first, since the others stand after it
  have hstart : t.start = pos := by
    rcases List.mem_cons.1 hu with rfl | hu
    · omega
    · have := hafter u hu
      omega
  have hcovers : ∀ i, t.stop ≤ i →
      ∀ v ∈ t :: others, v.Covers i → v ∈ others := by
    intro i hi v hv hvi
    rcases List.mem_cons.1 hv with rfl | hv
    · exact absurd hvi.2 (by omega)
    · exact hv
  refine ⟨t, others, rfl, hstart, hafter, fun v hv => h.text_eq v (hothers v hv),
    fun v hv => h.nonempty v (hothers v hv), hordered, ?_,
    fun v hv => h.admitted v (hothers v hv), ?_,
    fun v hv w hw => h.names_apart v (hothers v hv) w (hothers w hw)⟩
  · intro i d hi hd
    rw [← h.covered_iff i d (by omega) hd]
    constructor
    · rintro ⟨v, hv, hvi⟩
      exact ⟨v, hothers v hv, hvi⟩
    · rintro ⟨v, hv, hvi⟩
      exact ⟨v, hcovers i hi v hv hvi, hvi⟩
  · intro i hi hdash hnext
    obtain ⟨v, hv, hkind, hvi⟩ := h.arrows i (by omega) hdash hnext
    exact ⟨v, hcovers i hi v hv hvi, hkind, hvi⟩

/-- The last dash of a name makes no arrow with what follows, since the arrow
would share the dash with the name. -/
theorem SegmentedFrom.no_arrow {cs : List Char} {pos : Nat}
    {tokens : List Token} (h : SegmentedFrom cs pos tokens) {t : Token}
    (ht : t ∈ tokens) (hname : t.kind = .name)
    (hlast : t.text.toList.getLast? = some '-') :
    (cs.drop t.stop).head? ≠ some '>' := by
  intro hhead
  have hdrop := h.drop_start ht
  have hfrom := h.from_pos t ht
  have hlength := h.nonempty t ht
  obtain ⟨j, hj⟩ : ∃ j, t.stop = t.start + (j + 1) :=
    ⟨t.stop - t.start - 1, by omega⟩
  have hlen : t.text.toList.length = j + 1 := by
    rw [Token.stop] at hj
    rw [String.length_toList]
    omega
  have hdash : cs[t.start + j]? = some '-' := by
    rw [← List.getElem?_drop, hdrop, List.getElem?_append_left (by omega),
      ← hlast, List.getLast?_eq_getElem?, hlen, Nat.add_sub_cancel]
  have hnext : cs[t.start + j + 1]? = some '>' := by
    rw [Nat.add_assoc, ← hj, ← hhead, List.head?_drop]
  obtain ⟨v, hv, hkind, hvi⟩ := h.arrows _ (by omega) hdash hnext
  have hti : t.Covers (t.start + j) := ⟨Nat.le_add_right _ _, by omega⟩
  rw [← eq_of_covers h.ordered ht hv hti hvi, hname] at hkind
  cases hkind

/-- What follows a name does not go on with it, since the rest of the name would
be a name that touches it. -/
theorem SegmentedFrom.stops {cs : List Char} {pos : Nat} {t : Token}
    {others : List Token} (h : SegmentedFrom cs pos (t :: others))
    (hothers : SegmentedFrom cs t.stop others) (hname : t.kind = .name) {c : Char}
    {more : List Char} (hrest : cs.drop t.stop = c :: more) :
    continuesName c more = false := by
  rw [Bool.eq_false_iff]
  intro hcontinues
  obtain ⟨hc, hdash⟩ := continuesName_eq_true_iff.1 hcontinues
  obtain ⟨v, others, rfl, hstart, -⟩ := hothers.uncons (getElem?_of_drop hrest)
    (not_isBlank_of_isNameChar hc)
  have hadmits := hothers.admitted v List.mem_cons_self
  obtain ⟨d, text, htext⟩ := List.exists_cons_of_ne_nil hadmits.ne_nil
  have hdrop := hothers.drop_start (t := v) List.mem_cons_self
  rw [hstart, hrest, htext] at hdrop
  obtain ⟨rfl, hmore⟩ := List.cons.inj hdrop
  rw [htext] at hadmits
  rcases hadmits.of_isNameChar hc with hvname | ⟨rfl, rfl⟩
  · exact h.names_apart t List.mem_cons_self v (by simp) hname hvname hstart.symm
  · exact hdash rfl (by rw [hmore]; rfl)

/-- Where a text has a character that is not blank, every segmentation starts
with the lexeme, and what follows is a segmentation of the rest. -/
theorem SegmentedFrom.first {cs : List Char} {pos : Nat} {c : Char}
    {tokens : List Token} (h : SegmentedFrom cs pos tokens)
    (hc : cs[pos]? = some c) (hvisible : Text.isBlank c = false) :
    ∃ t others, tokens = t :: others ∧ t.start = pos ∧
      lexeme? (cs.drop pos) = some (t.kind, t.text.toList, cs.drop t.stop) ∧
      SegmentedFrom cs t.stop others := by
  obtain ⟨t, others, rfl, hstart, hothers⟩ := h.uncons hc hvisible
  have ht : t ∈ t :: others := List.mem_cons_self
  have hadmits := h.admitted t ht
  refine ⟨t, others, rfl, hstart, ?_, hothers⟩
  rw [← hstart, lexeme?_eq_some_iff]
  refine ⟨h.drop_start ht, hadmits, ?_⟩
  intro hname
  rw [hname] at hadmits
  exact ⟨hadmits.2, h.no_arrow ht hname, fun d more => h.stops hothers hname⟩

/-! ## One more token in front -/

/-- A dash before `>` is not part of a name. -/
theorem arrow_of_lexeme {cs text rest : List Char} {kind : Kind}
    (hlex : lexeme? cs = some (kind, text, rest)) {j : Nat}
    (hj : j < text.length) (hdash : cs[j]? = some '-')
    (hnext : cs[j + 1]? = some '>') : kind = .arrow := by
  obtain ⟨rfl, hadmits, hwhole⟩ := lexeme?_eq_some_iff.1 hlex
  rw [List.getElem?_append_left hj] at hdash
  rcases hadmits.of_dash (List.mem_of_getElem? hdash) with hname | harrow
  · have hrun := hwhole hname
    rcases Nat.lt_or_ge (j + 1) text.length with hlt | hge
    · rw [List.getElem?_append_left hlt] at hnext
      exact absurd (hrun.chars '>' (List.mem_of_getElem? hnext)) (by decide)
    · have hlength : text.length = j + 1 := by omega
      have hlast : text.getLast? = some '-' := by
        rw [List.getLast?_eq_getElem?, hlength, Nat.add_sub_cancel, hdash]
      have hhead : rest.head? = some '>' := by
        rw [← hnext, List.getElem?_append_right hge, hlength, Nat.sub_self,
          List.head?_eq_getElem?]
      exact absurd hhead (hrun.no_arrow hlast)
  · exact harrow

/-- No name touches a whole name before it: it would start with the dash of an
arrow. -/
theorem SegmentedFrom.name_apart {cs text : List Char} {pos : Nat}
    {tokens : List Token} (h : SegmentedFrom cs pos tokens)
    (hwhole : WholeName text (cs.drop pos)) {u : Token} (hu : u ∈ tokens)
    (hname : u.kind = .name) : pos ≠ u.start := by
  rintro rfl
  have hadmits := h.admitted u hu
  rw [hname] at hadmits
  obtain ⟨d, more, htext⟩ := List.exists_cons_of_ne_nil hadmits.1
  have hd : isNameChar d = true := hadmits.2 d (by rw [htext]; simp)
  have hdrop := h.drop_start hu
  rw [htext, List.cons_append] at hdrop
  have hstops := hwhole.stops d _ hdrop
  obtain ⟨rfl, hhead⟩ := eq_dash_of_not_continuesName hd hstops
  have hnext := getElem?_succ_of_drop hdrop
  rw [hhead] at hnext
  obtain ⟨v, hv, hkind, hvi⟩ :=
    h.arrows u.start (Nat.le_refl _) (getElem?_of_drop hdrop) hnext
  have hui : u.Covers u.start := ⟨Nat.le_refl _, h.nonempty u hu⟩
  rw [← eq_of_covers h.ordered hu hv hui hvi, hname] at hkind
  cases hkind

/-- A lexeme goes before any segmentation of what follows it. -/
theorem SegmentedFrom.cons {cs text rest : List Char} {pos : Nat} {kind : Kind}
    {tokens : List Token}
    (hlex : lexeme? (cs.drop pos) = some (kind, text, rest))
    (h : SegmentedFrom cs (pos + text.length) tokens) :
    SegmentedFrom cs pos (⟨kind, String.ofList text, pos⟩ :: tokens) := by
  obtain ⟨hdrop, hadmits, hwhole⟩ := lexeme?_eq_some_iff.1 hlex
  generalize htok : (⟨kind, String.ofList text, pos⟩ : Token) = t
  have hkind : t.kind = kind := by rw [← htok]
  have htext : t.text.toList = text := by rw [← htok, String.toList_ofList]
  have hstart : t.start = pos := by rw [← htok]
  have hstop : t.stop = pos + text.length := by
    rw [← htok, Token.stop, String.length_ofList]
  have hcovers : ∀ i, t.Covers i ↔ pos ≤ i ∧ i < pos + text.length := by
    intro i
    rw [Token.Covers, hstart, hstop]
  have hpositive : 0 < text.length := List.length_pos_iff.2 hadmits.ne_nil
  rw [← drop_of_lexeme rfl hlex] at hwhole hdrop
  refine ⟨?_, ?_, ?_, ?_, ?_, ?_, ?_, ?_⟩
  · rw [List.forall_mem_cons, hstart]
    exact ⟨Nat.le_refl pos, fun u hu => Nat.le_of_add_right_le (h.from_pos u hu)⟩
  · rw [List.forall_mem_cons, htext, hstart, hstop, eq_extract_iff]
    exact ⟨hdrop, h.text_eq⟩
  · rw [List.forall_mem_cons, hstart, hstop]
    exact ⟨by omega, h.nonempty⟩
  · rw [List.pairwise_cons, hstop]
    exact ⟨h.from_pos, h.ordered⟩
  · intro i d hi hd
    rw [List.exists_mem_cons_iff, hcovers]
    rcases Nat.lt_or_ge i (pos + text.length) with hlt | hge
    · obtain ⟨j, rfl⟩ := Nat.exists_eq_add_of_le hi
      rw [← List.getElem?_drop, hdrop, List.getElem?_append_left (by omega)] at hd
      have hvisible := hadmits.not_isBlank (List.mem_of_getElem? hd)
      exact iff_of_true (Or.inl ⟨hi, hlt⟩) hvisible
    · rw [← h.covered_iff i d hge hd]
      exact or_iff_right fun hcov => absurd hcov.2 (by omega)
  · rw [List.forall_mem_cons, hkind, htext]
    exact ⟨hadmits, h.admitted⟩
  · intro i hi hdash hnext
    rcases Nat.lt_or_ge i (pos + text.length) with hlt | hge
    · obtain ⟨j, rfl⟩ := Nat.exists_eq_add_of_le hi
      rw [← List.getElem?_drop] at hdash
      rw [Nat.add_assoc, ← List.getElem?_drop] at hnext
      have harrow := arrow_of_lexeme hlex (by omega) hdash hnext
      exact ⟨t, List.mem_cons_self, hkind.trans harrow, (hcovers _).2 ⟨hi, hlt⟩⟩
    · obtain ⟨u, hu, hukind, hui⟩ := h.arrows i hge hdash hnext
      exact ⟨u, List.mem_cons_of_mem t hu, hukind, hui⟩
  · intro u hu v hv
    rcases List.mem_cons.1 hu with rfl | humem
    · rcases List.mem_cons.1 hv with rfl | hvmem
      · intro _ _
        omega
      · intro huname hvname
        rw [hstop]
        exact h.name_apart (hwhole (hkind.symm.trans huname)) hvmem hvname
    · rcases List.mem_cons.1 hv with rfl | hvmem
      · intro _ _
        have hfrom := h.from_pos u humem
        have hlength := h.nonempty u humem
        omega
      · exact h.names_apart u humem v hvmem

/-! ## Segmentations of a text -/

/-- The lexer finds the segmentation of a text from a position on, if there is
one. -/
theorem scan_eq_ok_iff_segmentedFrom {cs rest : List Char} {pos : Nat}
    (hrest : cs.drop pos = rest) {tokens : List Token} :
    scan pos rest = .ok tokens ↔ SegmentedFrom cs pos tokens := by
  induction pos, rest using scan.induct generalizing tokens with
  | case1 pos =>
      rw [scan, segmentedFrom_end_iff hrest, Except.ok.injEq, eq_comm]
  | case2 pos c more hblank ih =>
      rw [scan_of_blank hblank, ih (drop_succ_of_drop hrest),
        segmentedFrom_blank_iff (getElem?_of_drop hrest) hblank]
  | case3 pos c more hvisible hlex =>
      rw [Bool.not_eq_true] at hvisible
      constructor
      · intro hscan
        rw [scan_of_no_lexeme hvisible hlex] at hscan
        cases hscan
      · intro h
        obtain ⟨_, _, -, -, hsome, -⟩ := h.first (getElem?_of_drop hrest) hvisible
        rw [hrest, hlex] at hsome
        cases hsome
  | case4 pos c more hvisible kind text after hlex ih =>
      rw [Bool.not_eq_true] at hvisible
      have hafter := drop_of_lexeme hrest hlex
      rw [scan_of_lexeme hvisible hlex, map_eq_ok]
      constructor
      · rintro ⟨others, hscan, rfl⟩
        exact .cons (hrest ▸ hlex) ((ih hafter).1 hscan)
      · intro h
        obtain ⟨t, others, rfl, rfl, hfirst, hothers⟩ :=
          h.first (getElem?_of_drop hrest) hvisible
        rw [hrest, hlex] at hfirst
        cases hfirst
        rw [Token.stop, ← String.length_toList] at hothers
        exact ⟨others, (ih hafter).2 hothers, by rw [String.ofList_toList]⟩

theorem tokenize_eq_ok_iff_segmentation {source : String} {tokens : List Token} :
    tokenize source = .ok tokens ↔ Segmentation source tokens :=
  scan_eq_ok_iff_segmentedFrom List.drop_zero

/-- **The tokens of a text are its only segmentation.**  A text that the lexer
refuses has none. -/
theorem tokenize_only_segmentation (source : String) (tokens : List Token) :
    tokenize source = .ok tokens ↔
      ∀ other, Segmentation source other ↔ other = tokens := by
  constructor
  · intro htokens other
    rw [← tokenize_eq_ok_iff_segmentation, htokens, Except.ok.injEq, eq_comm]
  · intro honly
    exact tokenize_eq_ok_iff_segmentation.2 ((honly tokens).2 rfl)

/-- Dashes belong to names up to the last one before `>`. -/
theorem tokenize_only_segmentation_dashes :
    let tokens : List Token := [⟨.lambda, "\\", 0⟩, ⟨.name, "-", 1⟩,
      ⟨.arrow, "->", 2⟩, ⟨.arrow, "->", 4⟩, ⟨.name, "a-b-", 7⟩, ⟨.name, "-", 12⟩]
    tokenize "\\-->-> a-b-\u2003-" = .ok tokens ∧
      ∀ other, Segmentation "\\-->-> a-b-\u2003-" other ↔ other = tokens := by
  intro tokens
  have htokens : tokenize "\\-->-> a-b-\u2003-" = .ok tokens := by
    with_unfolding_all rfl
  exact ⟨htokens, (tokenize_only_segmentation _ tokens).1 htokens⟩

end UntypedLambda.Grammar
