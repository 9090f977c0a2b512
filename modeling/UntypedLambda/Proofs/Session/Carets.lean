import UntypedLambda.Proofs.Grammar.FirstFault
import UntypedLambda.Proofs.Grammar.Legality
import UntypedLambda.Proofs.Session.Atomicity
import UntypedLambda.Proofs.Session.Reports
import UntypedLambda.Proofs.Text.Trimming

/-!
# Carets stay under the text they are about

The notice of an error is shown as its subject with a caret and tildes under the
span at fault.  The marks stand under the span if this lies in the subject
(`Notice.Inside`).  Otherwise they would be too far to the right, or the subject
would be cut in the wrong place.

An error can be made at every step of running a line, and each step looks at a
text that has been cut and trimmed in its own way: the line, the text after a
command, the two sides of a definition.  But no step counts further than its text
goes, and the subject is this text or one that is longer.  So every span lies in
its subject, even where nothing stands before an equals sign or the end of the
input is at fault.

## Main results

* `diagnose_plain`: a notice without colours.
* `Grammar.inside_notice_of_parse`: the errors of a text that is not a term.
* `inside_of_bind`, `inside_of_unknown`: the errors of a definition and of a
  command.
* `carets_stay_under_text`: the errors of a line.
-/

namespace UntypedLambda

open Diagnostic

namespace Diagnostic

/-! ## Spans and marks -/

/-- The span that is shown lies in the subject, unless this is empty. -/
structure Notice.Inside (n : Notice) : Prop where
  start_nonneg : 0 ≤ n.start
  stop_le : n.subject ≠ "" → n.shownStop ≤ n.subject.length

/-- A character a number of times in a row. -/
def repeated (c : Char) (count : Int) : String :=
  String.ofList (List.replicate count.toNat c)

theorem one_le_length {s : String} (h : s ≠ "") : (1 : Int) ≤ s.length := by
  have hpos : s.length ≠ 0 := mt String.length_eq_zero_iff.1 h
  omega

/-- The whole of a subject lies in it. -/
theorem inside_whole (category : Category) (message : Message) (subject : String)
    (diagnosis : Bool) : (Notice.whole category message subject diagnosis).Inside := by
  refine ⟨Int.le_refl 0, fun hsubject => ?_⟩
  exact Int.max_le.2 ⟨Int.le_refl _, one_le_length hsubject⟩

/-- The three pieces that a span cuts a text into make up the text. -/
theorem before_between_after {i j : Int} (hi : 0 ≤ i) (hij : i ≤ j)
    (cs : List Char) :
    Text.before i cs ++ (Text.between i j cs ++ Text.after j cs) = cs := by
  have hle : Text.position i cs.length ≤ Text.position j cs.length := by
    unfold Text.position
    rw [if_neg (by omega), if_neg (by omega)]
    omega
  have hbefore : Text.before i cs =
      (Text.before j cs).take (Text.position i cs.length) := by
    unfold Text.before
    rw [List.take_take, Nat.min_eq_left hle]
  unfold Text.between Text.after
  rw [hbefore, ← List.append_assoc, List.take_append_drop]
  exact List.take_append_drop _ cs

/-- **A notice without colours** is the subject as it is, with a caret under the
start of the span and tildes under the rest of it. -/
theorem diagnose_plain {n : Notice} (hstart : 0 ≤ n.start) (color : Color) :
    n.diagnose .plain color =
      "  " ++ n.subject ++ "\n" ++ repeated ' ' (2 + n.start) ++ "^" ++
        repeated '~' (n.shownStop - n.start - 1) := by
  have hstop : n.start ≤ n.shownStop := by
    unfold Notice.shownStop
    omega
  have hsubject := before_between_after hstart hstop n.subject.toList
  have hspaces : List.replicate (2 + n.start).toNat ' ' =
      [' ', ' '] ++ List.replicate n.start.toNat ' ' := by
    rw [Int.toNat_add (by omega) hstart, ← List.replicate_append_replicate]
    rfl
  apply String.toList_injective
  simp only [Notice.diagnose, Style.paint, repeated, String.toList_append,
    String.toList_ofList, hspaces]
  conv_rhs => rw [← hsubject]
  simp

end Diagnostic

/-! ## Texts that are not terms -/

namespace Grammar

/-- A token ends in its text. -/
theorem stop_le_of_tokenize {source : String} {tokens : List Token}
    (h : tokenize source = .ok tokens) {t : Token} (ht : t ∈ tokens) :
    t.stop ≤ source.length := by
  have hseg := tokenize_eq_ok_iff_segmentation.1 h
  have hdrop := congrArg List.length (hseg.drop_start ht)
  have hnonempty := hseg.nonempty t ht
  rw [List.length_append, List.length_drop, List.length_drop,
    String.length_toList, String.length_toList] at hdrop
  unfold Token.stop at *
  omega

/-- A token that an error is about is one of those that have been read. -/
theorem mem_of_parseTokens {tokens : List Token} (hnodup : tokens.Nodup)
    {fault : Fault} {tok : Token}
    (h : parseTokens tokens = .error (.located fault (some tok))) :
    tok ∈ tokens := by
  have hne : tokens ≠ [] := by
    rintro rfl
    cases h
  obtain ⟨fault', place, hplace, hat⟩ := faultAt_of_parseTokens hnodup hne h
  cases hplace
  obtain ⟨k, hk, -⟩ := hat
  exact List.mem_of_getElem? ((hk k).2 rfl)

theorem inside_notice_of_tokenize {source : String} {e : IllegalChar}
    (h : tokenize source = .error e) : (e.notice source).Inside := by
  have hpinpoints := pinpoints_tokenize source
  rw [h] at hpinpoints
  obtain ⟨hlt, -⟩ := List.getElem?_eq_some_iff.1 hpinpoints.1
  rw [String.length_toList] at hlt
  refine ⟨Int.natCast_nonneg _, fun _ => ?_⟩
  simp only [Notice.shownStop, IllegalChar.notice]
  omega

/-- The end of the input is shown inside of it. -/
theorem inside_notice_of_end (source : String) (fault : Fault) :
    (ParseError.notice source (.located fault none)).Inside := by
  refine ⟨Int.natCast_nonneg _, fun hsource => ?_⟩
  have hlength := one_le_length hsource
  obtain ⟨blanks, -, hsplit⟩ := Text.trimRight_append source.toList
  have htrimmed := congrArg List.length hsplit
  rw [String.length_toList, List.length_append] at htrimmed
  simp only [ParseError.notice] at hlength
  simp only [Notice.shownStop, ParseError.notice, endSpan]
  omega

/-- **The errors of a text that is not a term** are about a piece of the text. -/
theorem inside_notice_of_parse {source : String} {e : Error}
    (h : parse source = .error e) : (e.notice source).Inside := by
  rcases parse_eq_error_iff.1 h with
    ⟨illegal, rfl, hillegal⟩ | ⟨malformed, tokens, rfl, htokens, hparse⟩
  · exact inside_notice_of_tokenize hillegal
  · cases malformed with
    | empty => exact inside_whole _ _ source true
    | located fault place =>
        cases place with
        | none => exact inside_notice_of_end source fault
        | some tok =>
            have hmem := mem_of_parseTokens (nodup_tokenize htokens) hparse
            have hstop := stop_le_of_tokenize htokens hmem
            have hnonempty :=
              (tokenize_eq_ok_iff_segmentation.1 htokens).nonempty tok hmem
            refine ⟨Int.natCast_nonneg _, fun _ => ?_⟩
            simp only [Error.notice, Notice.shownStop, ParseError.notice]
            omega

end Grammar

namespace Session

/-- The notice of an error, if there is one, has its span in its subject. -/
def Error.Inside (e : Error) : Prop := ∀ n ∈ e.notice?, n.Inside

theorem inside_of_notice {e : Error} {n : Notice} (hn : e.notice? = some n)
    (h : n.Inside) : e.Inside := by
  intro n' hn'
  rw [hn] at hn'
  cases hn'
  exact h

theorem inside_of_parse {expr : String} {e : Error} (h : parse expr = .error e) :
    e.Inside := by
  obtain ⟨e₀, he₀, rfl⟩ := mapError_eq_error.1 h
  exact inside_of_notice rfl (Grammar.inside_notice_of_parse he₀)

/-! ## Definitions -/

theorem splitAt?_ne_none_of_mem {c : Char} {cs : List Char} (h : c ∈ cs) :
    Text.splitAt? [c] cs ≠ none := by
  induction cs with
  | nil => cases h
  | cons d cs ih =>
      rw [Text.splitAt?]
      split
      · simp
      · next hprefix =>
          have hne : c ≠ d := by
            rintro rfl
            simp at hprefix
          have hmem := (List.mem_cons.1 h).resolve_left hne
          simpa using ih hmem

theorem length_lt_of_splitAt?_eq_some {c : Char} {cs left right : List Char}
    (h : Text.splitAt? [c] cs = some (left, right)) : left.length < cs.length := by
  have hlength := congrArg List.length (Text.eq_of_splitAt?_eq_some h)
  rw [List.length_append, List.length_append, List.length_singleton] at hlength
  omega

theorem length_fst_splitAtChar_le (c : Char) (s : String) :
    (splitAtChar c s).1.length ≤ s.length := by
  unfold splitAtChar
  cases hsplit : Text.splitAt? [c] s.toList with
  | none => exact Nat.le_refl _
  | some parts =>
      have hlt := length_lt_of_splitAt?_eq_some hsplit
      rw [String.length_toList] at hlt
      show (String.ofList parts.1).length ≤ s.length
      rw [String.length_ofList]
      exact Nat.le_of_lt hlt

/-- There is an equals sign behind what stands before it. -/
theorem equalsPosition_lt {statement : String} (h : '=' ∈ statement.toList) :
    equalsPosition statement < statement.length := by
  unfold equalsPosition splitAtChar
  cases hsplit : Text.splitAt? ['='] statement.toList with
  | none => exact absurd hsplit (splitAt?_ne_none_of_mem h)
  | some parts =>
      have hlt := length_lt_of_splitAt?_eq_some hsplit
      rw [String.length_toList] at hlt
      show (String.ofList parts.1).length < statement.length
      rwa [String.length_ofList]

/-- The span of a definition that is refused ends before the equals sign. -/
theorem inside_leftSideNotice {statement : String} (h : '=' ∈ statement.toList)
    (before after : String) : (leftSideNotice statement before after).Inside := by
  have hlt := equalsPosition_lt h
  refine ⟨Int.le_refl 0, fun _ => ?_⟩
  simp only [Notice.shownStop, leftSideNotice]
  omega

theorem inside_of_bind {s : Session} {statement : String} {e : Error}
    (h : s.bind statement = .error e) : e.Inside := by
  unfold Session.bind at h
  simp only [refuse_eq_error, bind_eq_error, mapError_eq_error, pure_ne_error,
    and_false, or_false] at h
  -- the checks one after another; all but the first know that there is an equals sign
  rcases h with ⟨-, rfl⟩ | ⟨hmark, h⟩
  · exact inside_of_notice rfl (inside_whole _ _ statement false)
  have hequals : '=' ∈ statement.toList := by simpa using hmark
  rcases h with ⟨-, rfl⟩ | ⟨-, h⟩
  · exact inside_of_notice rfl (inside_leftSideNotice hequals _ _)
  rcases h with ⟨e₀, he₀, rfl⟩ | ⟨tokens, -, h⟩
  · exact inside_of_notice rfl (Grammar.inside_notice_of_tokenize he₀)
  rcases h with ⟨-, rfl⟩ | ⟨-, h⟩
  · exact inside_of_notice rfl (inside_leftSideNotice hequals _ _)
  rcases h with hparse | ⟨t, -, -, rfl⟩
  · exact inside_of_parse hparse
  · exact inside_of_notice rfl (inside_leftSideNotice hequals _ _)

/-! ## Commands -/

theorem ofWord_eq_unknown {line line' word word' arg : String}
    (h : Command.ofWord line word arg = .unknown line' word') :
    line' = line ∧ word' = word := by
  unfold Command.ofWord at h
  split at h <;> cases h
  exact ⟨rfl, rfl⟩

/-- The word behind a colon is shorter than the line. -/
theorem length_lt_of_colonWord? {text word arg : String}
    (h : colonWord? text = some (word, arg)) : word.length < text.length := by
  unfold colonWord? at h
  split at h
  · next rest hrest =>
      cases h
      have hlength := congrArg List.length hrest
      rw [String.length_toList, List.length_cons] at hlength
      have hword := length_fst_splitAtChar_le ' ' (String.ofList (Text.trim rest))
      rw [String.length_ofList] at hword
      obtain ⟨before, after, -, -, hsplit⟩ := Text.trim_between rest
      have htrimmed := congrArg List.length hsplit
      rw [List.length_append, List.length_append] at htrimmed
      show (splitAtChar ' ' (String.ofList (Text.trim rest))).1.length < text.length
      omega
  · cases h

theorem inside_of_unknown {text line word : String}
    (h : Command.ofLine text = .unknown line word) :
    (Error.unknownCommand line word).Inside := by
  rw [ofLine_eq] at h
  cases hparts : colonWord? text with
  | none =>
      rw [hparts] at h
      dsimp only at h
      split at h <;> cases h
  | some parts =>
      rw [hparts] at h
      obtain ⟨rfl, rfl⟩ := ofWord_eq_unknown h
      have hlt := length_lt_of_colonWord? hparts
      refine inside_of_notice rfl ⟨Int.le_refl 0, fun _ => ?_⟩
      simp only [Notice.shownStop]
      omega

/-! ## Lines -/

theorem inside_of_execute {s : Session} {line : String} {e : Error}
    (h : s.execute line = .error e) : e.Inside := by
  have hfails := fails_of_execute h
  generalize hcommand : Command.ofLine (trimmed (clean line)) = command at hfails
  cases hfails with
  | parse _ hparse => exact inside_of_parse hparse
  | define hbind => exact inside_of_bind hbind
  | unknown line word => exact inside_of_unknown hcommand
  | noCeiling =>
      intro n hn
      cases hn

/-- **Carets stay under the text they are about.**  Whatever is wrong with a line,
in any session, the span that is shown is not empty and lies in the subject of the
notice, unless this is empty; and without colours the notice is the subject as it
is, with a caret under the start of the span and tildes under the rest of it. -/
theorem carets_stay_under_text {s : Session} {line : String} {e : Error} {n : Notice}
    (hfails : s.execute line = .error e) (hnotice : e.notice? = some n) :
    let stop := max n.stop (n.start + 1)
    (n.subject = "" ∨
        0 ≤ n.start ∧ n.start < stop ∧ stop ≤ n.subject.length) ∧
      ∀ color, n.diagnose .plain color =
        "  " ++ n.subject ++ "\n" ++ repeated ' ' (2 + n.start) ++ "^" ++
          repeated '~' (stop - n.start - 1) := by
  intro stop
  have hinside : n.Inside := inside_of_execute hfails n hnotice
  refine ⟨?_, diagnose_plain hinside.start_nonneg⟩
  by_cases hsubject : n.subject = ""
  · exact Or.inl hsubject
  · refine Or.inr ⟨hinside.start_nonneg, ?_, hinside.stop_le hsubject⟩
    show n.start < max n.stop (n.start + 1)
    omega

/-- There is nothing before the equals sign, so the span at fault is empty and is
shown as one character. -/
theorem carets_stay_under_text_unnamed :
    let s := typedIn (Handler.new .plain true) .usual
    let e := Error.noName "= λx.x"
    s.execute ":let = λx.x" = .error e ∧
      ∃ n, e.notice? = some n ∧ n.stop = 0 ∧ n.shownStop ≤ n.subject.length ∧
        n.diagnose .plain .red = "  = λx.x\n  ^" := by
  intro s e
  have hfails : s.execute ":let = λx.x" = .error e := by
    have hcommand : Command.ofLine (trimmed (clean ":let = λx.x")) =
        .define "= λx.x" := by decide +kernel
    have hbind : s.bind "= λx.x" = .error e := rfl
    rw [execute_of_ofLine (by decide +kernel) hcommand, perform, define, hbind]
    rfl
  obtain ⟨hinside, hshown⟩ := carets_stay_under_text hfails rfl
  refine ⟨hfails, _, rfl, by decide +kernel, ?_, hshown .red⟩
  exact (hinside.resolve_left (by decide)).2.2

end Session

end UntypedLambda
