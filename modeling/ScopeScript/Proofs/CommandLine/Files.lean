import ScopeScript.Proofs.CommandLine.Transcript

/-!
# Script files

What a command prints that runs files is put together file by file: the dumps that are asked for,
and what the evaluation of the file prints.  The files share one session.  The first file that fails
is the last one that is read; if none fails, the value of the last file comes at the end in the form
that is asked for.
-/

namespace ScopeScript.CommandLine.Script

open Session
open Prompt (utf8 fromUTF8?_eq_some fromUTF8?_eq_none)

/-! ## What the flags ask for -/

/-- The tokens of a text, if they are asked for and the text consists of tokens. -/
def shownTokens (flags : List Flag) (text : String) : String :=
  match Token.ofSource text with
  | .ok tokens => if flags.contains .dumpTokens then tokensText tokens ++ "\n" else ""
  | .error _ => ""

/-- The program that a text is, if it is asked for and the text is a program. -/
def shownProgram (flags : List Flag) (text : String) : String :=
  match Program.ofSource text with
  | .ok p => if flags.contains .dumpAst then p.toJson.pretty ++ "\n" else ""
  | .error _ => ""

/-- The value of the last file in the form that is asked for. -/
def shownValue (flags : List Flag) (v : Value) : String :=
  if flags.contains .json then v.toJson.pretty ++ "\n"
  else if flags.contains .printResult then v.display ++ "\n"
  else ""

/-- To run a text is to print what is asked for and to evaluate the text. -/
theorem run_eq_eval (o : Options) (depth : Nat) (text : String) (s : Session) :
    run o depth text s =
      (print (print s (shownTokens o.flags text)) (shownProgram o.flags text)).eval depth text := by
  have hdump (p : Program) (hp : Program.ofSource text = .ok p) (s : Session) :
      dumpAst o p s = print s (shownProgram o.flags text) := by
    rw [shownProgram, hp]
    exact (print_ite s _ _).symm
  have hprogram (e : SyntaxError) (he : Program.ofSource text = .error e) :
      shownProgram o.flags text = "" := by
    rw [shownProgram, he]
  cases htokens : Token.ofSource text with
  | error e =>
    have he : Program.ofSource text = .error e := by
      rw [Program.ofSource, htokens]
      rfl
    have hload : s.load text = (.error e, s) := by
      unfold Session.load State.load
      rw [htokens]
    have hshown : shownTokens o.flags text = "" := by rw [shownTokens, htokens]
    rw [hprogram e he, hshown, print_empty, print_empty, eval, hload]
    by_cases hflag : o.has .dumpTokens = true
    · rw [run, dumpTokens, if_pos hflag, htokens]
    · rw [run, dumpTokens, if_neg hflag]
      simp only [hload]
  | ok tokens =>
    have hdumped : dumpTokens o text s = (.ok (), print s (shownTokens o.flags text)) := by
      rw [shownTokens, htokens]
      simp only [print_ite]
      by_cases hflag : o.has .dumpTokens = true
      · rw [dumpTokens, if_pos hflag, htokens]
        exact congrArg (Prod.mk _) (if_pos hflag).symm
      · rw [dumpTokens, if_neg hflag]
        exact congrArg (Prod.mk _) (if_neg hflag).symm
    rw [run, hdumped]
    generalize print s (shownTokens o.flags text) = t
    have hload := outcome_load t text
    simp only [eval, load_print]
    generalize t.load text = r at hload
    obtain ⟨r, u⟩ := r
    obtain rfl : r = Program.ofSource text := hload
    cases hp : Program.ofSource text with
    | error e =>
      simp only [hprogram e hp, print_empty]
    | ok p =>
      have hast := hdump p hp u
      dsimp only
      generalize dumpAst o p u = dumped at hast
      subst hast
      generalize (print u (shownProgram o.flags text)).run depth p = r
      obtain ⟨r, t⟩ := r
      cases r <;> rfl

theorem printResult_eq_print (o : Options) (v : Value) (s : Session) :
    printResult o v s = print s (shownValue o.flags v) := by
  unfold printResult shownValue
  by_cases hjson : o.has .json = true
  · rw [if_pos hjson]
    exact congrArg (print s) (if_pos hjson).symm
  · rw [if_neg hjson]
    refine Eq.trans ?_ (congrArg (print s) (if_neg hjson).symm)
    exact (print_ite s _ _).symm

/-! ## Files -/

/-- What comes of a file: the dumps that are asked for, and what its evaluation prints. -/
def shown (flags : List Flag) (text : String) (printed : Array UInt8) : List UInt8 :=
  utf8 (shownTokens flags text) ++ utf8 (shownProgram flags text) ++ printed.toList

variable {flags : List Flag} {content content' : String → Except String ByteArray} {s t : Session}
  {last : Value} {files rest : List String} {out : List UInt8} {ending : Option (List String)}

/-- The evaluations of the files, one after the other in one session and up to the first file that
fails, get to their ends. -/
def Terminates (content : String → Except String ByteArray) : Session → List String → Prop
  | _, [] => True
  | s, name :: rest => ∀ text : String, content name = .ok text.toUTF8 →
    ∃ r t, s.Evaluates text r t ∧ ∀ v, r = .ok v → Terminates content t rest

/-- What a command prints that runs the files in one session, if the value of the file before them
was `last`, and the files behind the first one that fails, if one does. -/
inductive Transcript (flags : List Flag) (content : String → Except String ByteArray) :
    Session → Value → List String → List UInt8 → Option (List String) → Prop
  | done (s : Session) (last : Value) :
      Transcript flags content s last [] (utf8 (shownValue flags last)) none
  | unread {s : Session} {last : Value} {name : String} {rest : List String}
      (hcontent : ∀ text : String, content name ≠ .ok text.toUTF8) :
      Transcript flags content s last (name :: rest) [] (some rest)
  | failed {s t : Session} {last : Value} {name text : String} {rest : List String}
      {e : ScopeScript.Failure} {printed : Array UInt8} (hcontent : content name = .ok text.toUTF8)
      (heval : s.Evaluates text (.error e) t)
      (hprinted : t.state.sink.written = s.state.sink.written ++ printed) :
      Transcript flags content s last (name :: rest) (shown flags text printed) (some rest)
  | ran {s t : Session} {last v : Value} {name text : String} {rest : List String}
      {printed : Array UInt8} {out : List UInt8} {ending : Option (List String)}
      (hcontent : content name = .ok text.toUTF8) (heval : s.Evaluates text (.ok v) t)
      (hprinted : t.state.sink.written = s.state.sink.written ++ printed)
      (hrest : Transcript flags content t v rest out ending) :
      Transcript flags content s last (name :: rest) (shown flags text printed ++ out) ending

theorem Terminates.exists_transcript (h : Terminates content s files) (flags : List Flag)
    (last : Value) : ∃ out ending, Transcript flags content s last files out ending := by
  induction files generalizing s last with
  | nil => exact ⟨_, _, .done s last⟩
  | cons name rest ih =>
    by_cases htext : ∃ text : String, content name = .ok text.toUTF8
    · obtain ⟨text, htext⟩ := htext
      obtain ⟨r, t, heval, hrest⟩ := h text htext
      obtain ⟨printed, hprinted⟩ := heval.written
      cases r with
      | error e => exact ⟨_, _, .failed htext heval hprinted⟩
      | ok v =>
        obtain ⟨out, ending, hout⟩ := ih (hrest v rfl) v
        exact ⟨_, _, .ran htext heval hprinted hout⟩
    · exact ⟨_, _, .unread fun text h => htext ⟨text, h⟩⟩

/-- The file that fails is the last one that a transcript depends on. -/
theorem Transcript.shorten (h : Transcript flags content s last files out (some rest)) :
    ∃ ran name, files = ran ++ name :: rest ∧
      Transcript flags content s last (ran ++ [name]) out (some []) := by
  generalize hending : some rest = ending at h
  induction h with
  | done => cases hending
  | unread hcontent =>
    obtain rfl := Option.some.inj hending
    exact ⟨[], _, rfl, .unread hcontent⟩
  | failed hcontent heval hprinted =>
    obtain rfl := Option.some.inj hending
    exact ⟨[], _, rfl, .failed hcontent heval hprinted⟩
  | @ran _ _ _ _ name _ _ _ _ _ hcontent heval hprinted _ ih =>
    obtain ⟨ran, failing, rfl, hout⟩ := ih hending
    exact ⟨name :: ran, failing, rfl, .ran hcontent heval hprinted hout⟩

theorem runFile_of_run {o : Options} {depth : Nat} {name text : String}
    {content : Except String ByteArray} (hcontent : content = .ok text.toUTF8) :
    runFile o depth name content s =
      ((run o depth text s).1.mapError (.file name), (run o depth text s).2) := by
  have hbytes : String.fromUTF8? text.toUTF8 = some text := fromUTF8?_eq_some.2 rfl
  rw [hcontent, runFile]
  simp only [hbytes]
  generalize run o depth text s = r
  obtain ⟨r, t⟩ := r
  cases r <;> rfl

theorem runFile_of_noText {content : Except String ByteArray}
    (h : ∀ text : String, content ≠ .ok text.toUTF8) (o : Options) (depth : Nat) (name : String) :
    ∃ failure, ∀ s, runFile o depth name content s = (.error failure, s) := by
  cases content with
  | error reason => exact ⟨_, fun _ => rfl⟩
  | ok bytes =>
    have hnone : String.fromUTF8? bytes = none :=
      fromUTF8?_eq_none fun text htext => h text (congrArg Except.ok htext.symm)
    exact ⟨.unreadable name notText, fun s => by rw [runFile, hnone]⟩

/-- Before a text is evaluated its dumps are printed, which leaves the session in agreement with one
that only evaluates the text. -/
theorem exists_run {s' : Session} {text : String} {r : Except ScopeScript.Failure Value}
    {printed : Array UInt8} (o : Options) (hs : s.Agrees t) (heval : s.Evaluates text r s')
    (hprinted : s'.state.sink.written = s.state.sink.written ++ printed) :
    ∃ t' depth, s'.Agrees t' ∧
      t'.state.sink.written.toList = t.state.sink.written.toList ++ shown o.flags text printed ∧
      ∀ bound, depth ≤ bound → run o bound text t = (r, t') := by
  have htokens := agrees_print hs (shownTokens o.flags text)
  have hprogram := agrees_print htokens (shownProgram o.flags text)
  obtain ⟨t', printed', heval', hagrees, hwritten, hwritten'⟩ := heval.of_agrees hprogram
  obtain rfl : printed = printed' := (Array.append_right_inj _).1 (hprinted.symm.trans hwritten)
  obtain ⟨depth, hdepth⟩ := heval'.exists_depth
  refine ⟨t', depth, hagrees, ?_, fun bound hbound => ?_⟩
  · rw [hwritten', Array.toList_append, written_print htokens.unlimited.2,
      written_print hs.unlimited.2, shown]
    simp only [List.append_assoc]
  · rw [run_eq_eval, hdepth bound hbound]

/-- The session of the command goes along with one that only evaluates the files: they agree before
each file. -/
theorem ofNext_of_transcript {o : Options}
    (h : Transcript o.flags content s last files out ending) (hs : s.Agrees t)
    (lines : List (List UInt8)) (before : Array UInt8) :
    ∃ depth, ∀ bound, depth ≤ bound →
      let report := Report.ofNext o bound content before lines (goOn o last files t)
      report.stdout.toList = before.toList ++ t.state.sink.written.toList ++ out ∧
        report.status = if ending.isNone then 0 else 1 := by
  induction h generalizing t before with
  | done s last =>
    refine ⟨0, fun bound _ => ?_⟩
    rw [goOn, Report.ofNext, printResult_eq_print]
    refine ⟨?_, rfl⟩
    rw [Array.toList_append, written_print hs.unlimited.2, List.append_assoc]
  | @unread _ _ name rest hcontent =>
    refine ⟨0, fun bound _ => ?_⟩
    obtain ⟨failure, hfile⟩ := runFile_of_noText hcontent o bound name
    rw [goOn, Report.ofNext, hfile, next, Report.ofNext]
    exact ⟨by simp [drained], rfl⟩
  | @failed _ _ _ name text rest _ _ hcontent heval hprinted =>
    obtain ⟨t', depth, -, hwritten, hrun⟩ := exists_run o (agrees_drained hs) heval hprinted
    refine ⟨depth, fun bound hbound => ?_⟩
    rw [goOn, Report.ofNext, runFile_of_run hcontent, hrun bound hbound, Except.mapError, next,
      Report.ofNext]
    refine ⟨?_, rfl⟩
    rw [Array.toList_append, hwritten]
    simp [drained]
  | @ran _ _ _ v name text rest _ _ _ hcontent heval hprinted _ ih =>
    obtain ⟨t', first, hagrees, hwritten, hrun⟩ := exists_run o (agrees_drained hs) heval hprinted
    obtain ⟨later, hlater⟩ := ih hagrees (before ++ t.state.sink.written)
    refine ⟨max first later, fun bound hbound => ?_⟩
    obtain ⟨hstdout, hstatus⟩ := hlater bound (by omega)
    rw [goOn, Report.ofNext, runFile_of_run hcontent, hrun bound (by omega), Except.mapError, next]
    refine ⟨hstdout.trans ?_, hstatus⟩
    rw [hwritten]
    simp [drained]

/-! ## Files that are not reached -/

/-- Of the options only the flags matter to a file. -/
theorem runFile_congr {o o' : Options} (hflags : o'.flags = o.flags) (depth : Nat) (name : String)
    (content : Except String ByteArray) (s : Session) :
    runFile o' depth name content s = runFile o depth name content s := by
  have hrun (text : String) : run o' depth text s = run o depth text s := by
    rw [run_eq_eval, run_eq_eval, hflags]
  unfold runFile
  simp only [hrun]

theorem ofNext_of_failing {o o' : Options} (hflags : o'.flags = o.flags) {depth : Nat}
    {name : String} {lines : List (List UInt8)} {before : Array UInt8}
    (hstatus : (Report.ofNext o depth content before lines
      (goOn o last (files ++ [name]) s)).status = 1)
    (hcontent : ∀ other ∈ files ++ [name], content' other = content other)
    (rest : List String) (lines' : List (List UInt8)) :
    Report.ofNext o' depth content' before lines' (goOn o' last (files ++ name :: rest) s) =
      Report.ofNext o depth content before lines (goOn o last (files ++ [name]) s) := by
  induction files generalizing last s before with
  | nil =>
    rw [List.nil_append, goOn, Report.ofNext] at hstatus ⊢
    rw [List.nil_append, goOn, Report.ofNext, runFile_congr hflags, hcontent name (by simp)]
    generalize runFile o depth name (content name) (drained s) = r at hstatus ⊢
    obtain ⟨r, t⟩ := r
    cases r with
    | error e => rw [next, next, Report.ofNext, Report.ofNext]
    | ok v =>
      -- The last file has a value, and so there would have been no failure.
      rw [next, goOn, Report.ofNext] at hstatus
      cases hstatus
  | cons first files ih =>
    obtain ⟨hfirst, hfiles⟩ := List.forall_mem_cons.1 hcontent
    rw [List.cons_append, goOn, Report.ofNext] at hstatus ⊢
    rw [List.cons_append, goOn, Report.ofNext, runFile_congr hflags, hfirst]
    generalize runFile o depth first (content first) (drained s) = r at hstatus ⊢
    obtain ⟨r, t⟩ := r
    cases r with
    | error e => rw [next, next, Report.ofNext, Report.ofNext]
    | ok v => exact ih hstatus hfiles

theorem ofOptions_of_files (hfiles : files ≠ []) (flags : List Flag) (depth : Nat)
    (content : String → Except String ByteArray) (stdin : List UInt8) (s : Session) :
    Report.ofOptions ⟨none, files, flags⟩ depth content stdin s =
      Report.ofNext ⟨none, files, flags⟩ depth content #[] (Prompt.lines stdin)
        (goOn ⟨none, files, flags⟩ .null files s) := by
  have hempty : files.isEmpty ≠ true := by rwa [Ne, List.isEmpty_iff]
  exact congrArg _ (if_neg hempty)

/-- Where a file fails, the report is the same whatever comes behind it. -/
theorem ofOptions_of_failing {name : String} {depth : Nat} {stdin : List UInt8}
    (hstatus : (Report.ofOptions ⟨none, files ++ [name], flags⟩ depth content stdin s).status = 1)
    (hcontent : ∀ other ∈ files ++ [name], content' other = content other)
    (rest : List String) (stdin' : List UInt8) :
    Report.ofOptions ⟨none, files ++ name :: rest, flags⟩ depth content' stdin' s =
      Report.ofOptions ⟨none, files ++ [name], flags⟩ depth content stdin s := by
  let o : Options := ⟨none, files ++ [name], flags⟩
  let o' : Options := ⟨none, files ++ name :: rest, flags⟩
  have hflags : o'.flags = o.flags := rfl
  rw [ofOptions_of_files (by simp)] at hstatus
  rw [ofOptions_of_files (by simp), ofOptions_of_files (by simp)]
  exact ofNext_of_failing hflags hstatus hcontent rest _

/-! ## Reports -/

/-- If the evaluations of the files get to their ends, the command prints their transcript, and ends
with the status that says whether a file failed.  What comes behind a file that fails is not read:
the report is the same whatever files there are, and whatever is in them. -/
theorem report_of_files (flags : List Flag) (content : String → Except String ByteArray)
    (files : List String) (hfiles : files ≠ []) (stdin : List UInt8) (s : Session)
    (hs : s.state.sink = ⟨#[], none⟩) :
    (Terminates content s files →
      ∃ out ending, Transcript flags content s .null files out ending) ∧
    ∀ out ending, Transcript flags content s .null files out ending →
      ∃ depth, ∀ bound, depth ≤ bound →
        let report := Report.ofOptions ⟨none, files, flags⟩ bound content stdin s
        report.stdout.toList = out ∧ (report.status = if ending.isNone then 0 else 1) ∧
        ∀ rest, ending = some rest → ∃ ran name, files = ran ++ name :: rest ∧
          ∀ rest' content' stdin', (∀ other ∈ ran ++ [name], content' other = content other) →
            Report.ofOptions ⟨none, ran ++ name :: rest', flags⟩ bound content' stdin' s =
              report := by
  have hfree : s.state.sink.limit = none := by rw [hs]
  have hagrees : s.Agrees s := ⟨rfl, rfl, rfl, hfree, hfree⟩
  have hreport {files : List String} (hfiles : files ≠ []) {out : List UInt8}
      {ending : Option (List String)} (h : Transcript flags content s .null files out ending) :
      ∃ depth, ∀ bound, depth ≤ bound →
        let report := Report.ofOptions ⟨none, files, flags⟩ bound content stdin s
        report.stdout.toList = out ∧ report.status = if ending.isNone then 0 else 1 := by
    obtain ⟨depth, hdepth⟩ :=
      ofNext_of_transcript (o := ⟨none, files, flags⟩) h hagrees (Prompt.lines stdin) #[]
    refine ⟨depth, fun bound hbound => ?_⟩
    rw [ofOptions_of_files hfiles]
    rw [hs] at hdepth
    exact hdepth bound hbound
  refine ⟨fun hends => hends.exists_transcript flags .null, fun out ending hout => ?_⟩
  obtain ⟨depth, hdepth⟩ := hreport hfiles hout
  cases ending with
  | none =>
    refine ⟨depth, fun bound hbound => ?_⟩
    obtain ⟨hstdout, hstatus⟩ := hdepth bound hbound
    exact ⟨hstdout, hstatus, nofun⟩
  | some rest =>
    -- The files up to the one that fails have a report of their own, which is the same.
    obtain ⟨ran, name, rfl, hshort⟩ := hout.shorten
    obtain ⟨first, hfirst⟩ := hreport (by simp) hshort
    refine ⟨max depth first, fun bound hbound => ?_⟩
    obtain ⟨hstdout, hstatus⟩ := hdepth bound (by omega)
    refine ⟨hstdout, hstatus, fun rest' hrest => ?_⟩
    obtain rfl := Option.some.inj hrest
    refine ⟨ran, name, rfl, fun rest' content' stdin' hcontent => ?_⟩
    have hfails := (hfirst bound (by omega)).2
    rw [ofOptions_of_failing hfails hcontent rest' stdin',
      ofOptions_of_failing hfails (fun _ _ => rfl) rest stdin]

/-- The second file sees the binding of the first one, and prints it before it fails.  The third one
is not read, nor is there a value to print. -/
theorem report_of_files_failing :
    let content : String → Except String ByteArray := fun name =>
      if name = "a" then .ok "let x = true;".toUTF8 else .ok "print(x); y".toUTF8
    ∃ depth, ∀ bound, depth ≤ bound →
      let report := Report.ofArguments ["--print-result", "a", "b", "c"] bound content []
        (new none (.still ⟨0⟩))
      report.stdout.toList = utf8 "true\n" ∧ report.status = 1 ∧
        ∀ rest content', content' "a" = content "a" → content' "b" = content "b" →
          Report.ofOptions ⟨none, "a" :: "b" :: rest, [.printResult]⟩ bound content' []
            (new none (.still ⟨0⟩)) = report := by
  intro content
  obtain ⟨-, hreport⟩ :=
    report_of_files [.printResult] content ["a", "b", "c"] (by simp) [] (new none (.still ⟨0⟩)) rfl
  have hfirst : ((new none (.still ⟨0⟩)).eval 1 "let x = true;").1 = .ok (.bool true) := by cbv
  have hsilent :
      ((new none (.still ⟨0⟩)).eval 1 "let x = true;").2.state.sink.written = #[] ++ #[] := by cbv
  have hsecond : (((new none (.still ⟨0⟩)).eval 1 "let x = true;").2.eval 1 "print(x); y").1 =
      .error (.halted (.fault (.unknownVariable "y"))) := by cbv
  have hprinted :
      (((new none (.still ⟨0⟩)).eval 1
          "let x = true;").2.eval 1 "print(x); y").2.state.sink.written =
        ((new none (.still ⟨0⟩)).eval 1 "let x = true;").2.state.sink.written ++
          "true\n".toUTF8.data := by cbv
  have hout : Transcript [.printResult] content (new none (.still ⟨0⟩)) .null ["a", "b", "c"] _
      (some ["c"]) :=
    .ran rfl ⟨1, Prod.ext hfirst rfl, by simp⟩ hsilent
      (.failed rfl ⟨1, Prod.ext hsecond rfl, by simp⟩ hprinted)
  obtain ⟨depth, hdepth⟩ := hreport _ _ hout
  refine ⟨depth, fun bound hbound => ?_⟩
  obtain ⟨hstdout, hstatus, hrest⟩ := hdepth bound hbound
  refine ⟨hstdout.trans (by cbv), hstatus, fun rest content' ha hb => ?_⟩
  obtain ⟨ran, name, hfiles, hsame⟩ := hrest ["c"] rfl
  have hran : ["a", "b"] = ran ++ [name] := by
    have hboth : ["a", "b"] ++ ["c"] = ran ++ [name] ++ ["c"] := by
      rw [List.append_assoc]
      exact hfiles
    exact List.append_cancel_right hboth
  have hcontent : ∀ other ∈ ran ++ [name], content' other = content other := by
    rw [← hran]
    simp [ha, hb]
  have hunread := hsame rest content' [] hcontent
  rw [List.append_cons, ← hran] at hunread
  exact hunread

/-- Both dumps of a file without statements, and then its value as JSON. -/
example :
    let args := ["--print-result", "--dump-ast", "--json", "--dump-tokens", "a"]
    let report :=
      Report.ofArguments args 0 (fun _ => .ok "".toUTF8) [] (Session.new none (.still ⟨0⟩))
    report.stdout.toList = utf8 ("[\n  \x7b\n    \"kind\": \"Eof\",\n    \"text\": \"\",\n" ++
      "    \"line\": 1\n  \x7d\n]\n\x7b\n  \"body\": []\n\x7d\nnull\n") := by
  decide +kernel

end ScopeScript.CommandLine.Script
