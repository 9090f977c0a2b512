import UntypedLambda.Proofs.Shell.SpacedLines

/-!
# Words that are commands of the shell

A word of the shell is a command only if it stands alone.  A line that goes on
after the word is an ordinary line, but the shell takes it apart before it passes
it on, and puts one space between the word and the rest.  The session makes the
same of it, because it does not matter what blanks there are between two tokens.

There is one exception.  The shell ends the word at the first character that is no
letter, digit or underscore, but a name may go on with others, a prime for example.
If the line starts with such a name, then the name is cut in two (`CutsName`), and
the session is given another line than the one that was typed in.

## Main results

* `splitWord_spec`: how a line is taken apart.
* `accept_eq_passOn`: what is passed on of a line.
* `accept_agrees_unless_cut`: lines that start with a word of the shell.
* `accept_refuses_primed_name`: a name that is cut in two.
-/

namespace UntypedLambda.Shell

open Session
open Grammar (continuesName)
open Text (Blanks SolidStart SolidEnd isBlank)

/-! ## Lines that start with a word of the shell -/

/-- Whether a name at the end of a text would go on with the text after it. -/
def goesOnName : List Char → Bool
  | [] => false
  | c :: rest => continuesName c rest

/-- A line that starts with a word of the shell, but as a part of a longer name. -/
def CutsName (text : String) : Prop :=
  (splitWord text).1 ∈ shellWords ∧
    goesOnName (text.toList.dropWhile isWordChar) = true

instance : DecidablePred CutsName := fun _ => inferInstanceAs (Decidable (_ ∧ _))

/-- The word that a line starts with, blanks after it, and the text after these. -/
theorem splitWord_spec {text : String} (h : SolidEnd text.toList) :
    ∃ gap, Blanks gap ∧ SolidStart (splitWord text).2.toList ∧
      text.toList.dropWhile isWordChar = gap ++ (splitWord text).2.toList ∧
      text.toList =
        (splitWord text).1.toList ++ (gap ++ (splitWord text).2.toList) := by
  have hsplit : text.toList.takeWhile isWordChar ++ text.toList.dropWhile isWordChar =
      text.toList := List.takeWhile_append_dropWhile
  have hend : SolidEnd (text.toList.dropWhile isWordChar) := by
    rw [← hsplit] at h
    exact h.of_append
  have hrest : (text.toList.dropWhile isWordChar).takeWhile isBlank ++
      Text.trimLeft (text.toList.dropWhile isWordChar) =
        text.toList.dropWhile isWordChar := List.takeWhile_append_dropWhile
  have hblanks : Blanks ((text.toList.dropWhile isWordChar).takeWhile isBlank) :=
    fun c hc => List.all_eq_true.1 List.all_takeWhile c hc
  have hword : (splitWord text).1.toList = text.toList.takeWhile isWordChar :=
    String.toList_ofList
  have harg : (splitWord text).2.toList =
      Text.trimLeft (text.toList.dropWhile isWordChar) := by
    rw [Text.trimLeft_of_solidEnd hend]
    exact String.toList_ofList
  rw [hword, harg]
  exact ⟨_, hblanks, Text.solidStart_trimLeft _, hrest.symm, by rw [hrest, hsplit]⟩

/-- Nothing comes after the word only if the word is the whole line. -/
theorem splitWord_snd_ne_empty {text : String} (h : SolidEnd text.toList)
    (hword : (splitWord text).1 ≠ text) : (splitWord text).2 ≠ "" := by
  intro hempty
  obtain ⟨gap, hgap, -, -, htext⟩ := splitWord_spec h
  have hnil : (splitWord text).2.toList = [] := String.toList_eq_nil_iff.2 hempty
  rw [hnil, List.append_nil] at htext
  have hsolid : SolidEnd gap := by
    rw [htext] at h
    exact h.of_append
  have htrim : gap = [] := by
    rw [← Text.trimRight_of_solidEnd hsolid, Text.trimRight_eq_nil_of_blanks hgap]
  rw [htrim, List.append_nil] at htext
  exact hword (String.toList_injective htext.symm)

/-- A line that starts with a word of the shell but is not the word alone is passed on
with a space after the word, and every other line as it is. -/
theorem dispatch_eq_passOn (sh : Shell) {text : String} (h : SolidEnd text.toList)
    (hword : text ∉ shellWords) :
    sh.dispatch text = sh.passOn
      (if (splitWord text).1 ∈ shellWords then
        joinLines (splitWord text).1 (splitWord text).2 else text) := by
  have harg : (splitWord text).1 ∈ shellWords → (splitWord text).2 ≠ "" := by
    intro hmem
    refine splitWord_snd_ne_empty h ?_
    rintro heq
    rw [heq] at hmem
    exact hword hmem
  unfold dispatch
  generalize hparts : splitWord text = parts at harg ⊢
  obtain ⟨word, arg⟩ := parts
  dsimp only at harg ⊢
  have horPassOn : ∀ {word : String} (alone : Turn), word ∈ shellWords → arg ≠ "" →
      sh.orPassOn word arg alone =
        sh.passOn (if word ∈ shellWords then joinLines word arg else text) := by
    intro word alone hmem hne
    rw [if_pos hmem]
    exact if_neg hne
  split
  case h_4 hhelp hexit heof =>
    rw [if_neg]
    intro hmem
    simp only [shellWords, List.mem_cons, List.not_mem_nil, or_false] at hmem
    rcases hmem with rfl | rfl | rfl
    · exact hhelp arg rfl
    · exact hexit arg rfl
    · exact heof arg rfl
  all_goals
    next heq =>
      cases heq
      exact horPassOn _ (by decide) (harg (by decide))

/-- What the shell passes on of a line that is more than a word of its own. -/
theorem accept_eq_passOn (sh : Shell) {line : String} (hne : trimmed line ≠ "")
    (hword : trimmed line ∉ shellWords)
    (hhelp : (trimmed line).toList.head? ≠ some '?') :
    sh.accept line = sh.passOn
      (if (splitWord (trimmed line)).1 ∈ shellWords then
        joinLines (splitWord (trimmed line)).1 (splitWord (trimmed line)).2
      else trimmed line) := by
  have hend : SolidEnd (trimmed line).toList := by
    rw [toList_trimmed]
    exact Text.solidEnd_trim _
  have hdispatch := sh.dispatch_eq_passOn hend hword
  unfold accept
  dsimp only
  split
  case h_1 hnil => exact absurd (String.toList_eq_nil_iff.1 hnil) hne
  case h_2 hquestion =>
    rw [hquestion] at hhelp
    exact absurd rfl hhelp
  case h_3 hbang =>
    have hempty : (splitWord (trimmed line)).1 = "" := by
      unfold splitWord
      rw [hbang]
      rfl
    rw [if_neg (by rw [hempty]; decide)]
  case h_4 => exact hdispatch

/-- If no name is cut in two, then the space is all that the shell changes. -/
theorem spaced_joinLines {text : String} (h : SolidEnd text.toList)
    (hword : text ∉ shellWords) (hmem : (splitWord text).1 ∈ shellWords)
    (hcut : ¬ CutsName text) :
    Spaced text.toList
      (joinLines (splitWord text).1 (splitWord text).2).toList := by
  obtain ⟨gap, hblanks, hsolid, hrest, htext⟩ := splitWord_spec h
  have hne : (splitWord text).2.toList ≠ [] := by
    rw [ne_eq, String.toList_eq_nil_iff]
    refine splitWord_snd_ne_empty h ?_
    intro heq
    rw [heq] at hmem
    exact hword hmem
  have hgap : Gap (splitWord text).1.toList gap (splitWord text).2.toList := by
    refine ⟨⟨_, hmem, List.suffix_rfl⟩, hblanks, fun c more hcons => ?_, hne, hsolid⟩
    rw [← Bool.not_eq_true]
    intro hgoes
    refine hcut ⟨hmem, ?_⟩
    rw [hrest, hcons]
    exact hgoes
  have hspaced := Spaced.gap hgap
  rw [toList_joinLines]
  rwa [← htext] at hspaced

/-- **Words of the shell are commands only on their own, unless a name is cut in
two.**  A line with something on it that is not one of the words alone and does not
ask for help with a question mark is an ordinary line: in any shell, whatever it
keeps, it leaves the same definitions and ends the session or the reading of lines
in the same cases as if it were passed on as it is, and is accepted if it would be
then.  Only if the line starts with a longer name, of which the shell takes the
front for its word, then the line that is passed on has a space within that
name. -/
theorem accept_agrees_unless_cut (sh : Shell) {line : String} (hne : trimmed line ≠ "")
    (hword : trimmed line ∉ shellWords)
    (hhelp : (trimmed line).toList.head? ≠ some '?') :
    let text := trimmed line
    (¬ CutsName text → (sh.accept line).standing = (sh.passOn text).standing ∧
        ((sh.passOn text).Accepted → (sh.accept line).Accepted)) ∧
      (CutsName text → sh.accept line =
        sh.passOn (joinLines (splitWord text).1 (splitWord text).2)) := by
  intro text
  have haccept := sh.accept_eq_passOn hne hword hhelp
  have hend : SolidEnd text.toList := by
    rw [toList_trimmed]
    exact Text.solidEnd_trim _
  refine ⟨fun hcut => ?_, fun hcut => ?_⟩
  · by_cases hmem : (splitWord text).1 ∈ shellWords
    · rw [haccept, if_pos hmem]
      exact sh.standing_passOn (spaced_joinLines hend hword hmem hcut)
    · rw [haccept, if_neg hmem]
      exact ⟨rfl, id⟩
  · rw [haccept, if_pos hcut.1]

/-- An arrow after a word that is a parameter in an unfinished line, and a prime
after a word. -/
theorem accept_agrees_unless_cut_arrow :
    let sh : Shell := { session := typedIn ⟨.plain, true, ∅⟩ .usual
                        pending := some "(\\help" }
    (sh.accept "\texit->help)").standing = (sh.passOn "exit->help)").standing ∧
      sh.accept "EOF' EOF) " = sh.passOn "EOF ' EOF)" := by
  intro sh
  have harrow : trimmed "\texit->help)" = "exit->help)" := by decide
  have hprime : trimmed "EOF' EOF) " = "EOF' EOF)" := by decide
  obtain ⟨hagrees, -⟩ := @accept_agrees_unless_cut sh "\texit->help)"
    (by rw [harrow]; decide) (by rw [harrow]; decide) (by rw [harrow]; decide)
  obtain ⟨-, hcuts⟩ := @accept_agrees_unless_cut sh "EOF' EOF) "
    (by rw [hprime]; decide) (by rw [hprime]; decide) (by rw [hprime]; decide)
  rw [harrow] at hagrees
  rw [hprime] at hcuts
  exact ⟨(hagrees (by decide)).1, hcuts (by decide)⟩

/-- A definition of a name with a prime is taken up by the session, but the shell cuts
the name in two, and then it is refused. -/
theorem accept_refuses_primed_name :
    let sh : Shell := { session := typedIn ⟨.plain, true, ∅⟩ .usual }
    let line := "exit' = \\x. x"
    trimmed line = line ∧ line ∉ shellWords ∧ CutsName line ∧
      (sh.passOn line).Accepted ∧ ¬ (sh.accept line).Accepted ∧
      (sh.accept line).standing ≠ (sh.passOn line).standing := by
  intro sh line
  have htrim : trimmed line = line := by decide
  have hcut : CutsName line := by decide
  have hline : clean line = line := by decide +kernel
  have hspaced : clean "exit ' = \\x. x" = "exit ' = \\x. x" := by decide +kernel
  have hword : trimmed line ∉ shellWords := by
    rw [htrim]
    decide
  have haccept : sh.accept line = sh.handOver "exit ' = \\x. x" := by
    rw [sh.accept_eq_passOn (by rw [htrim]; decide) hword (by rw [htrim]; decide), htrim,
      if_pos hcut.1, ← passOn_of_clean rfl hspaced (by decide)]
    have hjoined : joinLines (splitWord line).1 (splitWord line).2 =
        "exit ' = \\x. x" := by decide
    rw [hjoined]
  have hparse : Grammar.parse (definingText "exit' = \\x. x") =
      .ok (.abs "x" (.var "x")) := by
    with_unfolding_all rfl
  have htaken : ∀ number, standing? ((sh.session.noted line number).execute line) =
      some (Table.insert ∅ "exit'" (.abs "x" (.var "x")), false) := by
    intro number
    rw [standing?_execute_define _ (by decide) hline htrim (by decide +kernel),
      standing?_bind_eq_some_iff]
    exact ⟨"exit'", .abs "x" (.var "x"), ⟨⟨by decide, by decide, hparse⟩, by decide⟩,
      Environment.not_reaches (by cbv), rfl⟩
  have hrefused : ∀ number, standing? ((sh.session.noted "exit ' = \\x. x"
      number).execute "exit ' = \\x. x") = none := by
    intro number
    have hbind : (sh.session.noted "exit ' = \\x. x" number).bind "exit ' = \\x. x" =
        .error (.badName "exit ' = \\x. x") := by
      with_unfolding_all rfl
    rw [standing?_execute_define _ (by decide) hspaced (by decide)
      (by decide +kernel), hbind]
    rfl
  rw [passOn_of_clean rfl hline (by decide), haccept, accepted_handOver_iff,
    accepted_handOver_iff, standing_handOver, standing_handOver, htaken, hrefused]
  refine ⟨htrim, by decide, hcut, rfl, Bool.false_ne_true, ?_⟩
  intro hsame
  have hkeys := congrArg (fun left => left.2.1.keys) hsame
  exact absurd hkeys (by decide)

end UntypedLambda.Shell
