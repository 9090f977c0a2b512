import UntypedLambda.Proofs.Diagnostic.Templates
import UntypedLambda.Proofs.Session.Reports

/-!
# Reports of faults

What is said about a fault of the program is put into the text of its report, and
that text is read as a template once more.  So a fault is reported as it is if what
is said about it has no braces.  Braces that can be read as fields are lost from the
report; with other braces nothing is reported, and the fault that gets out is that
of the template.  A field that asks for a part by a name stands for whatever an
inspection finds there, of which nothing is assumed; such fields aside, a fault with
braces is never reported as it is.

The failures of a session have no braces in what is said about them, so a run of the
program never asks an inspection for anything.

## Main results

* `settle_fault_of_error`, `settle_fault_of_ok`: how a handler deals with a fault.
* `Idle.render_fault`: what the report says.
* `settle_interruption_congr`, `settle_startInterruption_congr`: no failure of a session
  asks an inspection.
* `reports_verbatim_iff`: the faults that are reported as they are.
-/

namespace UntypedLambda.Diagnostic

/-- What is said about a fault in its report. -/
def Fault.text (f : Fault) : String :=
  "unknown error: '" ++ f.kind ++ ": " ++ f.message ++ "'"

theorem Fault.braceless_text {f : Fault} :
    Braceless f.text.toList ↔ Braceless (f.kind ++ f.message).toList := by
  have hstart : Braceless "unknown error: '".toList := braceless_ofList (by decide)
  have hcolon : Braceless ": ".toList := braceless_ofList (by decide)
  have hend : Braceless "'".toList := braceless_ofList (by decide)
  unfold text
  simp only [braceless_toList_append]
  constructor
  · rintro ⟨⟨⟨⟨-, hkind⟩, -⟩, hmessage⟩, -⟩
    exact ⟨hkind, hmessage⟩
  · rintro ⟨hkind, hmessage⟩
    exact ⟨⟨⟨⟨hstart, hkind⟩, hcolon⟩, hmessage⟩, hend⟩

/-- In a plain style a template is filled in one way only. -/
theorem Message.ofTemplate_plain (template : String) (snippets : List String)
    (inspect : Inspection) :
    Message.ofTemplate .plain template snippets inspect =
      (Template.fill template snippets inspect).map fun text => [.filled text text] := by
  have hbold : snippets.map Style.plain.bold = snippets := List.map_id snippets
  unfold Message.ofTemplate
  rw [hbold]
  cases Template.fill template snippets inspect <;> rfl

namespace Handler

/-! ## How a fault is dealt with -/

/-- The notice of a fault about which `text` is said. -/
def filledNotice (text : String) : Notice :=
  { category := .general, message := [.filled text text], subject := "", start := 0, stop := 0,
    internal := true }

theorem faultNotice_plain (f : Fault) (inspect : Inspection) :
    faultNotice .plain f inspect = (Template.fill f.text [""] inspect).map filledNotice := by
  unfold faultNotice Notice.ofTemplate
  rw [Message.ofTemplate_plain]
  show _ = (Template.fill f.text [""] inspect).map filledNotice
  unfold Fault.text
  cases Template.fill ("unknown error: '" ++ f.kind ++ ": " ++ f.message ++ "'") [""] inspect <;>
    rfl

/-- If the text of a fault is a bad template, then nothing is reported, and the fault
that this is gets out. -/
theorem settle_fault_of_error {h : Handler} (hstyle : h.style = .plain) {f : Fault}
    {inspect : Inspection} {e : Template.Error}
    (hfill : Template.fill f.text [""] inspect = .error e) :
    h.settle (some (.fault f)) inspect = (.escaped (.fault e.fault), [], h) := by
  unfold settle
  dsimp only
  rw [hstyle, faultNotice_plain, hfill]
  rfl

/-- Otherwise the text is reported as it is filled, and the fault itself ends the
work. -/
theorem settle_fault_of_ok {h : Handler} (hstyle : h.style = .plain) {f : Fault}
    {inspect : Inspection} {text : String}
    (hfill : Template.fill f.text [""] inspect = .ok text) :
    h.settle (some (.fault f)) inspect =
      (if h.fatal then .exited (some 1) else .escaped (.fault f),
        [.error h.trace.entries (filledNotice text)],
        if h.fatal then h else h.forgetLines) := by
  have hnotice : (Except.ok text : Except Template.Error String).map filledNotice =
      .ok (filledNotice text) := rfl
  unfold settle
  dsimp only
  rw [hstyle, faultNotice_plain, hfill, hnotice]
  unfold throw
  cases h.fatal <;> rfl

/-- Where nothing that is said about a fault is read as a field, nothing is asked of
values, in any style. -/
theorem settle_fault_congr (h : Handler) {f : Fault} (hkind : Braceless f.kind.toList)
    (hmessage : Braceless f.message.toList) (inspect inspect' : Inspection) :
    h.settle (some (.fault f)) inspect = h.settle (some (.fault f)) inspect' := by
  have htext : Braceless f.text.toList :=
    Fault.braceless_text.2 (braceless_toList_append.2 ⟨hkind, hmessage⟩)
  have hfill : ∀ snippets,
      Template.fill f.text snippets inspect = Template.fill f.text snippets inspect' := by
    intro snippets
    rw [Template.fill_of_no_braces htext, Template.fill_of_no_braces htext]
  have hnotice : faultNotice h.style f inspect = faultNotice h.style f inspect' := by
    unfold faultNotice Notice.ofTemplate Message.ofTemplate
    show (do
        let message ← (do
          let plain ← Template.fill f.text [""] inspect
          let shown ← Template.fill f.text ([""].map h.style.bold) inspect
          return [Segment.filled plain shown])
        _) = _
    rw [hfill, hfill]
    rfl
  unfold settle
  dsimp only
  rw [hnotice]

/-! ## What the failures of a session say -/

theorem braceless_of_malformed (e : Text.Utf8.Malformed) : Braceless e.message.toList := by
  have hbyte : ∀ b : UInt8, Braceless (Text.Utf8.hexByte b).toList := fun b => by
    have hb := b.toNat_lt
    exact braceless_ofList (braceless_cons.2 ⟨digitChar_ne_brace (by omega),
      braceless_singleton.2 (digitChar_ne_brace (by omega))⟩)
  have hreason : Braceless e.reason.text.toList := by
    cases e.reason <;> exact braceless_ofList (by decide)
  unfold Text.Utf8.Malformed.message
  simp only [braceless_toList_append]
  refine ⟨⟨⟨braceless_ofList (by decide), ?_⟩, braceless_ofList (by decide)⟩, hreason⟩
  split
  · simp only [braceless_toList_append]
    exact ⟨⟨⟨braceless_ofList (by decide), hbyte _⟩, braceless_ofList (by decide)⟩,
      braceless_toString _⟩
  · simp only [braceless_toList_append]
    exact ⟨⟨⟨braceless_ofList (by decide), braceless_toString _⟩,
      braceless_ofList (by decide)⟩, braceless_toString _⟩

/-- What a session fails with asks nothing of values, in any style. -/
theorem settle_interruption_congr (h : Handler) (e : Session.Error)
    (inspect inspect' : Inspection) :
    h.settle (some e.interruption) inspect = h.settle (some e.interruption) inspect' := by
  have hkind : Braceless Session.noCeilingFault.kind.toList := braceless_ofList (by decide)
  have hmessage : Braceless Session.noCeilingFault.message.toList :=
    braceless_ofList (by decide)
  unfold Session.Error.interruption
  split
  · rfl
  · exact h.settle_fault_congr (f := Session.noCeilingFault) hkind hmessage inspect inspect'

/-- Nor does a session that cannot start, whatever is wrong with the bytes of its
file. -/
theorem settle_startInterruption_congr (h : Handler) (e : Session.StartError)
    (inspect inspect' : Inspection) :
    h.settle (some e.interruption) inspect = h.settle (some e.interruption) inspect' := by
  have hvalue : Braceless "ValueError".toList := braceless_ofList (by decide)
  have hnull : Braceless "embedded null byte".toList := braceless_ofList (by decide)
  have hdecode : Braceless "UnicodeDecodeError".toList := braceless_ofList (by decide)
  cases e with
  | reserved => rfl
  | read path error =>
      cases error with
      | unreadable => rfl
      | badPath =>
          exact h.settle_fault_congr (f := ⟨"ValueError", "embedded null byte"⟩)
            hvalue hnull inspect inspect'
      | malformed e =>
          exact h.settle_fault_congr (f := ⟨"UnicodeDecodeError", e.message⟩)
            hdecode (braceless_of_malformed e) inspect inspect'

/-! ## Reports -/

/-- While no line is being worked on, a trace has nothing to show. -/
theorem Idle.traceEntries_eq_nil {h : Handler} (hidle : h.Idle) :
    traceEntries h.trace.entries = [] := by
  rw [traceEntries, List.filterMap_eq_nil_iff]
  rintro ⟨path, place⟩ hmem
  rw [hidle path place ((Table.get?_eq_some_iff _ path place).2 hmem)]
  rfl

theorem Idle.render_fault {h : Handler} (hidle : h.Idle) (text : String) :
    (Report.error h.trace.entries (filledNotice text)).render .plain =
      "[internal] error: " ++ text ++ "\n" := by
  have hmessage : (filledNotice text).message.render .plain = text := by
    simp [filledNotice, Message.render, Segment.render, String.join]
  unfold Report.render
  dsimp only
  rw [hidle.traceEntries_eq_nil, hmessage]
  show "" ++ "" ++ "[internal] " ++ "error: " ++ text ++ "\n" ++ "" = _
  rw [String.append_empty]
  rfl

/-- A fault is reported as it is: in one line with nothing in front of it, after which
the program ends with status one if the handler is fatal, and otherwise the fault
itself gets out. -/
def ReportsVerbatim (h : Handler) (f : Fault) (inspect : Inspection) : Prop :=
  ∃ report h', h.settle (some (.fault f)) inspect =
      (if h.fatal then .exited (some 1) else .escaped (.fault f), [report], h') ∧
    report.render .plain =
      "[internal] error: unknown error: '" ++ f.kind ++ ": " ++ f.message ++ "'\n"

/-- A fault is reported as it is exactly if its text stands for itself as a
template. -/
theorem reportsVerbatim_iff_fill {h : Handler} (hstyle : h.style = .plain) (hidle : h.Idle)
    (f : Fault) (inspect : Inspection) :
    h.ReportsVerbatim f inspect ↔ Template.fill f.text [""] inspect = .ok f.text := by
  have hverbatim : "[internal] error: unknown error: '" ++ f.kind ++ ": " ++ f.message ++ "'\n" =
      "[internal] error: " ++ f.text ++ "\n" := by
    have hstart : "[internal] error: unknown error: '" =
      "[internal] error: " ++ "unknown error: '" := rfl
    have hend : "'\n" = "'" ++ "\n" := rfl
    unfold Fault.text
    rw [hstart, hend]
    simp only [String.append_assoc]
  unfold ReportsVerbatim
  rw [hverbatim]
  cases hfill : Template.fill f.text [""] inspect with
  | error e =>
      rw [settle_fault_of_error hstyle hfill]
      simp
  | ok text =>
      rw [settle_fault_of_ok hstyle hfill]
      constructor
      · rintro ⟨report, h', hsettle, hrender⟩
        cases hsettle
        rw [hidle.render_fault, String.append_left_inj, String.append_right_inj] at hrender
        rw [hrender]
      · rintro ⟨⟩
        exact ⟨_, _, rfl, hidle.render_fault _⟩

/-- **Which faults are reported as they are**, while no line is being worked on and
whatever values say about their parts: those whose text stands for itself as a
template.  A fault about which nothing with braces is said is one of them, and one
with braces is none, unless a field of its text asks for a part by a name.  If the
text is a bad template, then nothing is reported, and the fault that this is gets
out. -/
theorem reports_verbatim_iff {h : Handler} (hstyle : h.style = .plain) (hidle : h.Idle)
    (f : Fault) (inspect : Inspection) :
    (h.ReportsVerbatim f inspect ↔ Template.fill f.text [""] inspect = .ok f.text) ∧
      (Braceless (f.kind ++ f.message).toList → h.ReportsVerbatim f inspect) ∧
      (Template.asksByName f.text = false → h.ReportsVerbatim f inspect →
        Braceless (f.kind ++ f.message).toList) ∧
      ∀ e, Template.fill f.text [""] inspect = .error e →
        h.settle (some (.fault f)) inspect = (.escaped (.fault e.fault), [], h) := by
  have hfill := reportsVerbatim_iff_fill hstyle hidle f inspect
  have hsnippets : ∀ s ∈ [""], Braceless s.toList :=
    List.forall_mem_singleton.2 braceless_nil
  refine ⟨hfill, fun hbraces => ?_, fun hasks hverbatim => ?_, fun e => ?_⟩
  · exact hfill.2 (Template.fill_of_no_braces (Fault.braceless_text.2 hbraces) _ _)
  · exact Fault.braceless_text.1
      ((Template.fill_eq_self_iff hsnippets hasks inspect).1 (hfill.1 hverbatim))
  · exact settle_fault_of_error hstyle

/-- A key that is looked for in vain while a file has been taken up is reported as it
is, and one with braces is not, even if the braces can be read as a field. -/
theorem reports_verbatim_iff_missing_key :
    let h := (new .plain true).enterFile "<in>"
    h.style = .plain ∧ h.Idle ∧ h.ReportsVerbatim ⟨"KeyError", "'x'"⟩ .traits ∧
      Template.asksByName (Fault.text ⟨"KeyError", "\x7b0[0]:>3\x7d"⟩) = false ∧
      ¬ h.ReportsVerbatim ⟨"KeyError", "\x7b0[0]:>3\x7d"⟩ .traits := by
  intro h
  have hstyle : h.style = .plain := rfl
  have hidle : h.Idle := (idle_new .plain true).enterFile "<in>"
  have hbraces : Braceless ("KeyError" ++ "'x'").toList := braceless_toList_append.2
    ⟨braceless_ofList (by decide), braceless_ofList (by decide)⟩
  have hasks : Template.asksByName (Fault.text ⟨"KeyError", "\x7b0[0]:>3\x7d"⟩) = false := by
    decide +kernel
  refine ⟨hstyle, hidle, ?_, hasks, fun hverbatim => ?_⟩
  · exact (reports_verbatim_iff hstyle hidle ⟨"KeyError", "'x'"⟩ .traits).2.1 hbraces
  · have hnone := (reports_verbatim_iff hstyle hidle ⟨"KeyError", "\x7b0[0]:>3\x7d"⟩ .traits).2.2.1
      hasks hverbatim
    exact absurd (hnone '\x7b' (by decide)) (by decide)

/-- A single brace: nothing is reported, and another fault gets out. -/
theorem settle_fault_open_brace :
    (new .plain false).settle (some (.fault ⟨"ValueError", "\x7b"⟩)) =
      (.escaped (.fault ⟨"ValueError", "expected '\x7d' before end of string"⟩), [],
        new .plain false) := by
  with_unfolding_all rfl

end Handler

end UntypedLambda.Diagnostic
