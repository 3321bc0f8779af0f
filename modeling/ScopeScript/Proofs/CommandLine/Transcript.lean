import ScopeScript.CommandLine.Report
import ScopeScript.Proofs.CommandLine.Lines
import ScopeScript.Proofs.Session.Evaluation

/-!
# Transcripts

What a dialogue prints is put together line by line: a prompt, what the evaluation of the line
prints, and the echo of what comes of it; at the end there is one more prompt.  The lines share one
session, and all that a line leaves to the next ones are bindings.
-/

namespace ScopeScript.CommandLine

open Session

/-! ## Printing -/

section

variable {s t : Session}

theorem print_eq (s : Session) (text : String) : print s text =
    { s with state := { s.state with sink := (s.state.sink.write text.toUTF8.data).2 } } := by
  rw [print, perform_eq, Run.final_write]

theorem print_empty (s : Session) : print s "" = s := by
  have hwrite : (s.state.sink.write "".toUTF8.data).2 = s.state.sink := by
    obtain ⟨host, store, ⟨written, limit⟩, events, clock⟩ := s
    cases limit <;> simp [Sink.write]
  rw [print_eq, hwrite]

theorem print_ite (s : Session) (asked : Bool) (line : String) :
    print s (if asked then line ++ "\n" else "") = if asked then printLine s line else s := by
  cases asked with
  | true => rfl
  | false => exact print_empty s

theorem agrees_print (h : s.Agrees t) (text : String) : s.Agrees (print t text) := by
  obtain ⟨hhost, hstore, hclock, hs, ht⟩ := h
  rw [print_eq, Sink.write_of_unlimited ht]
  exact ⟨hhost, hstore, hclock, hs, ht⟩

theorem agrees_drained (h : s.Agrees t) : s.Agrees (drained t) := by
  obtain ⟨hhost, hstore, hclock, hs, ht⟩ := h
  exact ⟨hhost, hstore, hclock, hs, ht⟩

theorem written_print (h : s.state.sink.limit = none) (text : String) :
    (print s text).state.sink.written.toList =
      s.state.sink.written.toList ++ Prompt.utf8 text := by
  rw [print_eq, Sink.write_of_unlimited h]
  exact Array.toList_append

/-- Reading a text only notes events, and printing only writes to the sink. -/
theorem load_print (s : Session) (out text : String) :
    (print s out).load text = ((s.load text).1, print (s.load text).2 out) := by
  rw [print_eq, print_eq]
  unfold Session.load State.load
  cases Token.ofSource text with
  | error e => rfl
  | ok tokens =>
    simp only
    cases Program.ofTokens tokens <;> rfl

end

namespace Prompt

variable {s t : Session} {text : String} {texts : List String} {out : List UInt8}

/-! ## What is printed -/

/-- The evaluations of the texts, one after the other in one session, get to their ends. -/
def Terminates : Session → List String → Prop
  | _, [] => True
  | s, text :: rest => ∃ r t, s.Evaluates text r t ∧ Terminates t rest

/-- What a dialogue prints that answers the texts in one session. -/
inductive Transcript : Session → List String → List UInt8 → Prop
  | done (s : Session) : Transcript s [] (utf8 "> ")
  | line {s t : Session} {text : String} {rest : List String} {r : Except Failure Value}
      {printed : Array UInt8} {out : List UInt8} (heval : s.Evaluates text r t)
      (hprinted : t.state.sink.written = s.state.sink.written ++ printed)
      (hrest : Transcript t rest out) :
      Transcript s (text :: rest) (utf8 "> " ++ printed.toList ++ utf8 (echo r) ++ out)

theorem Terminates.exists_transcript (h : Terminates s texts) : ∃ out, Transcript s texts out := by
  induction texts generalizing s with
  | nil => exact ⟨_, .done s⟩
  | cons text rest ih =>
    obtain ⟨r, t, heval, hrest⟩ := h
    obtain ⟨out, hout⟩ := ih hrest
    obtain ⟨printed, hprinted⟩ := heval.written
    exact ⟨_, .line heval hprinted hout⟩

/-- The session matters only for its bindings, its natives and its clock. -/
theorem Transcript.of_agrees (h : Transcript s texts out) (hs : s.Agrees t) :
    Transcript t texts out := by
  induction h generalizing t with
  | done s => exact .done t
  | line heval hprinted _ ih =>
    obtain ⟨t', printed, heval', hagrees, hwritten, hprinted'⟩ := heval.of_agrees hs
    obtain rfl := (Array.append_right_inj _).1 (hprinted.symm.trans hwritten)
    exact .line heval' hprinted' (ih hagrees)

/-! ## The dialogue -/

/-- The end of a dialogue: nothing more is read, or a line that is not a text. -/
theorem ofNext_of_noText {rest : List (List UInt8)} (hrest : NoTextFirst rest) (o : Options)
    (depth : Nat) (content : String → Except String ByteArray) (before : Array UInt8)
    (s : Session) :
    let report := Report.ofNext o depth content before rest (.line, s)
    report.stdout = before ++ s.state.sink.written ∧
      report.status = if rest.isEmpty then 0 else 1 := by
  cases rest with
  | nil =>
    rw [Report.ofNext, next, Report.ofNext]
    exact ⟨Array.append_empty, rfl⟩
  | cons l rest =>
    have hnone : String.fromUTF8? (ByteArray.mk l.toArray) = none :=
      fromUTF8?_eq_none fun text htext => hrest l rfl text (by rw [utf8, htext])
    rw [Report.ofNext, next, hnone, Report.ofNext]
    exact ⟨Array.append_empty, rfl⟩

/-- The session of a dialogue goes along with one that only evaluates the lines: they agree before
each line. -/
theorem ofNext_of_transcript (h : Transcript s texts out) {rest : List (List UInt8)}
    (hrest : NoTextFirst rest) (hs : s.Agrees t) (o : Options)
    (content : String → Except String ByteArray) (before : Array UInt8) :
    ∃ depth, ∀ bound, depth ≤ bound →
      let report := Report.ofNext o bound content before (texts.map utf8 ++ rest) (.line, ask t)
      report.stdout.toList = before.toList ++ t.state.sink.written.toList ++ out ∧
        report.status = if rest.isEmpty then 0 else 1 := by
  induction h generalizing t before with
  | done s =>
    refine ⟨0, fun bound _ => ?_⟩
    obtain ⟨hstdout, hstatus⟩ := ofNext_of_noText hrest o bound content before (ask t)
    rw [List.map_nil, List.nil_append]
    refine ⟨?_, hstatus⟩
    rw [hstdout, ask, Array.toList_append, written_print hs.unlimited.2, List.append_assoc]
  | @line s s' text texts r printed out heval hprinted _ ih =>
    -- The prompt and the echo are printed on one side only, which leaves the two in agreement.
    have hasked := agrees_drained (agrees_print hs "> ")
    obtain ⟨t', printed', heval', hagrees, hwritten, hwritten'⟩ := heval.of_agrees hasked
    obtain rfl : printed = printed' :=
      (Array.append_right_inj _).1 (hprinted.symm.trans hwritten)
    obtain ⟨first, hfirst⟩ := heval'.exists_depth
    obtain ⟨later, hlater⟩ :=
      ih (agrees_print hagrees (echo r)) (before ++ (ask t).state.sink.written)
    refine ⟨max first later, fun bound hbound => ?_⟩
    have hnext : next bound (some (utf8 text)) (drained (ask t)) =
        (.line, ask (print t' (echo r))) := by
      rw [next, fromUTF8?_eq_some_iff.2 rfl]
      simp only [answer, ask, hfirst bound (by omega)]
    obtain ⟨hstdout, hstatus⟩ := hlater bound (by omega)
    rw [List.map_cons, List.cons_append, Report.ofNext, hnext]
    refine ⟨hstdout.trans ?_, hstatus⟩
    rw [written_print hagrees.unlimited.2, hwritten', Array.toList_append, ask,
      written_print hs.unlimited.2]
    simp [drained, List.append_assoc]

/-! ## Failures -/

/-- What a text leaves that fails: the bindings and the output that it had already made. -/
structure LeavesMade (s : Session) (text : String) (e : Failure) (t : Session) : Prop where
  /-- All that the following lines see of it are bindings, and a clock that was read. -/
  following : ∀ texts out, Transcript t texts out ↔
    Transcript
      { s with state := { s.state with store := t.state.store, clock := t.state.clock } } texts out
  clock : s.state.clock.GoesOn t.state.clock
  rejected : ∀ error, e = .rejected error →
    t.state.store = s.state.store ∧ t.state.sink = s.state.sink
  /-- A statement failed.  The ones before it were run, and it was up to its failure. -/
  halted : ∀ h, e = .halted h → ∃ depth done stmt rest v,
    Program.ofSource text = .ok ⟨done ++ stmt :: rest⟩ ∧
      let m := Program.run s.host depth top ⟨done⟩
      let failing := stmt.run (Run.call s.host depth) top
      m.outcome s.state = .ok v ∧ failing.outcome (m.final s.state) = .error h ∧
        t.state.store = (failing.final (m.final s.state)).store ∧
        t.state.sink = (failing.final (m.final s.state)).sink

theorem leavesMade {e : Failure} (hs : s.state.sink.limit = none)
    (h : s.Evaluates text (.error e) t) : LeavesMade s text e t where
  following texts out := by
    have ht : t.state.sink.limit = none := h.limit.trans hs
    refine ⟨fun hout => hout.of_agrees ?_, fun hout => hout.of_agrees ?_⟩
    · exact ⟨h.host.symm, rfl, rfl, ht, hs⟩
    · exact ⟨h.host, rfl, rfl, hs, ht⟩
  clock := h.clock
  rejected error he := by
    subst he
    exact h.rejected
  halted halt he := by
    subst he
    exact h.halted

/-! ## Reports -/

/-- Any input is cut into lines, and starts with texts up to a line that is not one.  If the
evaluations of these texts get to their ends, the command prints their transcript and ends with the
status that says whether all lines were texts.  A line that fails leaves to the following ones the
bindings that it had made, and nothing else. -/
theorem report_of_transcript (flags : List Flag) (content : String → Except String ByteArray)
    (stdin : List UInt8) (s : Session) (hs : s.state.sink = ⟨#[], none⟩) :
    (∃ texts rest, Reads stdin texts rest) ∧
    (∀ texts rest, Reads stdin texts rest →
      (Terminates s texts → ∃ out, Transcript s texts out) ∧
      ∀ out, Transcript s texts out → ∃ depth, ∀ bound, depth ≤ bound →
        let report := Report.ofOptions ⟨none, [], flags⟩ bound content stdin s
        report.stdout.toList = out ∧ report.status = if rest.isEmpty then 0 else 1) ∧
    ∀ s text e t, s.state.sink.limit = none → s.Evaluates text (.error e) t →
      LeavesMade s text e t := by
  refine ⟨exists_reads stdin, fun texts rest hreads => ⟨Terminates.exists_transcript, ?_⟩,
    fun s text e t => leavesMade⟩
  intro out hout
  have hfree : s.state.sink.limit = none := by rw [hs]
  obtain ⟨depth, hdepth⟩ := ofNext_of_transcript hout hreads.noText ⟨rfl, rfl, rfl, hfree, hfree⟩
    ⟨none, [], flags⟩ content #[]
  refine ⟨depth, fun bound hbound => ?_⟩
  obtain ⟨hstdout, hstatus⟩ := hdepth bound hbound
  have hreport : Report.ofOptions ⟨none, [], flags⟩ bound content stdin s =
      Report.ofNext ⟨none, [], flags⟩ bound content #[] (texts.map utf8 ++ rest)
        (.line, ask s) := by
    rw [← hreads.eq_lines]
    rfl
  rw [hreport]
  rw [hs] at hstdout
  exact ⟨hstdout, hstatus⟩

/-- The binding that the first line made before it failed is there for the second one, and no answer
is given to the third one, which is not a text. -/
theorem report_of_transcript_failing :
    let stdin := utf8 "let a = true; b\n" ++ utf8 "a\n" ++ [255]
    ∃ depth, ∀ bound, depth ≤ bound →
      let report := Report.ofOptions ⟨none, [], []⟩ bound (fun _ => .error "") stdin
        (new none (.still ⟨0⟩))
      report.stdout.toList = utf8 "> runtime error: unknown variable: b\n> true\n> " ∧
        report.status = 1 := by
  intro stdin
  obtain ⟨-, htranscript, -⟩ :=
    report_of_transcript [] (fun _ => .error "") stdin (new none (.still ⟨0⟩)) rfl
  have hreads : Reads stdin ["let a = true; b\n", "a\n"] [[255]] := by
    refine ⟨?_, rfl, ?_⟩
    · exact .line (l := utf8 "let a = true; b") (by decide)
        (.line (l := utf8 "a") (by decide) (.last (by decide) (by decide)))
    · intro l hl text htext
      obtain rfl : [255] = l := Option.some.inj hl
      cases (fromUTF8?_eq_some_iff.2 htext).symm.trans rfl
  have hfails : ((new none (.still ⟨0⟩)).eval 1 "let a = true; b\n").1 =
      .error (.halted (.fault (.unknownVariable "b"))) := by cbv
  have hshows : (((new none (.still ⟨0⟩)).eval 1 "let a = true; b\n").2.eval 1 "a\n").1 =
      .ok (.bool true) := by cbv
  have hsilent :
      ((new none (.still ⟨0⟩)).eval 1 "let a = true; b\n").2.state.sink.written =
        #[] ++ #[] := by cbv
  have hsilent' :
      (((new none (.still ⟨0⟩)).eval 1
          "let a = true; b\n").2.eval 1 "a\n").2.state.sink.written =
        ((new none (.still ⟨0⟩)).eval 1 "let a = true; b\n").2.state.sink.written ++ #[] := by cbv
  have hout := Transcript.line ⟨1, Prod.ext hfails rfl, by simp⟩ hsilent
    (.line ⟨1, Prod.ext hshows rfl, by simp⟩ hsilent' (.done _))
  obtain ⟨depth, hreport⟩ := (htranscript _ _ hreads).2 _ hout
  refine ⟨depth, fun bound hbound => ?_⟩
  obtain ⟨hstdout, hstatus⟩ := hreport bound hbound
  refine ⟨hstdout.trans ?_, hstatus⟩
  decide

end Prompt

end ScopeScript.CommandLine
