import ScopeScript.Proofs.CommandLine.Files

/-!
# Executions

A command that is executed takes the moments that it needs one by one, and tries each step until it
reads no further than they go.  What comes of the step then is what comes of it with any clock that
shows these moments first, since a step depends on the clock only through the moments that it reads.
So an execution comes to the report with the clock that shows the moments taken.
-/

namespace ScopeScript

namespace Session

variable {α β : Type}

/-- The step depends on the clock only through what it reads. -/
structure OnlyReads (step : Session → α × Session) : Prop where
  goesOn : ∀ s : Session, s.state.clock.GoesOn (step s).2.state.clock
  same : ∀ (s : Session) (instants : Nat → Instant), (step s).2.state.clock.HasShown instants →
    step (s.showing instants) = ((step s).1, (step s).2.showing instants)

namespace OnlyReads

variable {step : Session → α × Session}

theorem pure (a : α) : OnlyReads fun s => (a, s) :=
  ⟨fun s => .refl s.state.clock, fun _ _ _ => rfl⟩

theorem bind {next : α → Session → β × Session} (hstep : OnlyReads step)
    (hnext : ∀ a, OnlyReads (next a)) : OnlyReads fun s => next (step s).1 (step s).2 := by
  refine ⟨fun s => (hstep.goesOn s).trans ((hnext _).goesOn _), fun s instants hshown => ?_⟩
  have hfirst := hstep.same s instants (hshown.of_goesOn ((hnext _).goesOn _))
  simp only [hfirst]
  exact (hnext _).same _ instants hshown

theorem congr {step' : Session → α × Session} (hstep : OnlyReads step)
    (h : ∀ s, step' s = step s) : OnlyReads step' := by
  obtain rfl : step' = step := funext h
  exact hstep

/-- Clocks that show the same for long enough make no difference. -/
theorem step_showing (hstep : OnlyReads step) {instants instants' : Nat → Instant} {n : Nat}
    (hsame : ∀ i, i < n → instants' i = instants i) (s : Session)
    (hn : (step (s.showing instants)).2.state.clock.readings ≤ n) :
    step (s.showing instants') =
      ((step (s.showing instants)).1, (step (s.showing instants)).2.showing instants') := by
  refine hstep.same (s.showing instants) instants' fun i hi => ?_
  rw [(hstep.goesOn (s.showing instants)).instants]
  exact hsame i (Nat.lt_of_lt_of_le hi hn)

end OnlyReads

/-- The first moments of a clock. -/
def moments (instants : Nat → Instant) (n : Nat) : Array Instant := (Array.range n).map instants

theorem getD_moments {instants : Nat → Instant} {n i : Nat} (hi : i < n) (other : Instant) :
    (moments instants n).getD i other = instants i := by
  simp [moments, Array.getD, hi]

variable {step : Session → α × Session}

/-- A step is tried in vain if it reads further than the moments were taken.  If it does not, it
comes to what it comes to with the clock that shows these moments first. -/
theorem attempt_moments (hstep : OnlyReads step) (instants : Nat → Instant) (n : Nat)
    (s : Session) : s.attempt (moments instants n) step =
      if (step (s.showing instants)).2.state.clock.readings ≤ n then
        some ((step (s.showing instants)).1,
          (step (s.showing instants)).2.showing fun i => (moments instants n).getD i ⟨-1⟩)
      else none := by
  have hsize : (moments instants n).size = n := by simp [moments]
  have hshown (i : Nat) (hi : i < n) : (moments instants n).getD i ⟨-1⟩ = instants i :=
    getD_moments hi _
  unfold attempt
  rw [hsize]
  by_cases hreal : (step (s.showing instants)).2.state.clock.readings ≤ n
  · rw [if_pos hreal, hstep.step_showing hshown s hreal]
    exact if_pos hreal
  · rw [if_neg hreal]
    refine if_neg fun htried => hreal ?_
    rw [hstep.step_showing (fun i hi => (hshown i hi).symm) s htried]
    exact htried

theorem showing_of_instants_eq {s : Session} {instants : Nat → Instant}
    (h : s.state.clock.instants = instants) : s.showing instants = s := by
  subst h
  rfl

/-- A step that is tried with success is the step with all moments of the clock. -/
theorem step_of_attempt (hstep : OnlyReads step) {instants : Nat → Instant} {n : Nat} {s : Session}
    {r : α × Session} (h : s.attempt (moments instants n) step = some r) :
    step (s.showing instants) = (r.1, r.2.showing instants) := by
  rw [attempt_moments hstep] at h
  split at h
  · obtain rfl := Option.some.inj h
    have hclock := (hstep.goesOn (s.showing instants)).instants
    exact Prod.ext rfl (showing_of_instants_eq hclock).symm
  · cases h

/-- A step is not tried for ever. -/
theorem exists_attempt (hstep : OnlyReads step) (instants : Nat → Instant) (n : Nat) (s : Session) :
    ∃ m, n ≤ m ∧ ∃ r, s.attempt (moments instants m) step = some r := by
  refine ⟨max n (step (s.showing instants)).2.state.clock.readings, Nat.le_max_left _ _, ?_⟩
  rw [attempt_moments hstep, if_pos (Nat.le_max_right _ _)]
  exact ⟨_, rfl⟩

/-! ## Evaluations -/

namespace OnlyReads

variable {m : Host → Run α}

theorem perform (hm : ∀ host instants, Run.OnlyReads instants (m host)) :
    OnlyReads fun s => s.perform (m s.host) := by
  simp only [perform_eq]
  refine ⟨fun s => (hm s.host s.state.clock.instants).goesOn s.state, fun s instants hshown => ?_⟩
  obtain ⟨houtcome, hfinal⟩ := (hm s.host instants).same s.state hshown
  exact Prod.ext houtcome (congrArg (Session.mk s.host) hfinal)

theorem load (source : String) : OnlyReads fun s => s.load source := by
  refine ⟨fun s => Run.isGuarantee_goesOn.load source s.state, fun s instants _ => ?_⟩
  unfold Session.load State.load
  cases Token.ofSource source with
  | error e => rfl
  | ok tokens =>
    simp only
    cases Program.ofTokens tokens <;> rfl

theorem run (depth : Nat) (p : Program) : OnlyReads fun s => s.run depth p := by
  have hm (host : Host) : Run.Composed host (top = ·) (p.run host depth top) :=
    .program host depth rfl p
  exact perform fun host => (hm host).onlyReads

theorem eval (depth : Nat) (text : String) : OnlyReads fun s => s.eval depth text := by
  cases hp : Program.ofSource text with
  | error e =>
    have heval (s : Session) : s.eval depth text = (.error (.rejected e), (s.load text).2) := by
      obtain ⟨e', he, hvalue, hleft⟩ | ⟨p, hp', -⟩ := s.eval_cases depth text
      · obtain rfl := Except.error.inj (hp.symm.trans he)
        exact Prod.ext hvalue hleft
      · cases hp.symm.trans hp'
    simp only [heval]
    exact (load text).bind fun _ => .pure _
  | ok p =>
    have heval (s : Session) : s.eval depth text =
        (((s.load text).2.run depth p).1.mapError .halted, ((s.load text).2.run depth p).2) := by
      obtain ⟨e, he, -⟩ | ⟨p', hp', hvalue, hleft⟩ := s.eval_cases depth text
      · cases hp.symm.trans he
      · obtain rfl := Except.ok.inj (hp.symm.trans hp')
        exact Prod.ext hvalue hleft
    simp only [heval]
    exact ((load text).bind fun _ => run depth p).bind fun r =>
      .pure (r.mapError Failure.halted)

end OnlyReads

end Session

/-! ## Steps of a command -/

namespace CommandLine

open Session (OnlyReads)

theorem onlyReads_print {α : Type} (a : α) (text : String) :
    OnlyReads fun s => (a, print s text) :=
  (OnlyReads.perform fun _ _ => Run.OnlyReads.write text).bind fun _ => .pure a

namespace Script

theorem onlyReads_run (o : Options) (depth : Nat) (text : String) :
    OnlyReads fun s => run o depth text s := by
  simp only [run_eq_eval]
  exact ((onlyReads_print () _).bind fun _ => onlyReads_print () _).bind fun _ => .eval depth text

theorem onlyReads_next (o : Options) (rest : List String) (r : Except Failure Value) :
    OnlyReads fun s => next o rest (r, s) := by
  cases r with
  | error e => exact .pure _
  | ok v =>
    cases rest with
    | nil =>
      simp only [next, goOn, printResult_eq_print]
      exact onlyReads_print _ _
    | cons name rest => exact .pure _

/-- Whatever is in a file, the step from it to the next one depends on the clock only through what
it reads. -/
theorem onlyReads_file (o : Options) (depth : Nat) (name : String) (rest : List String)
    (content : Except String ByteArray) :
    OnlyReads fun s => next o rest (runFile o depth name content s) := by
  by_cases htext : ∃ text : String, content = .ok text.toUTF8
  · obtain ⟨text, htext⟩ := htext
    simp only [runFile_of_run htext]
    exact (onlyReads_run o depth text).bind fun r => onlyReads_next o rest (r.mapError (.file name))
  · obtain ⟨failure, hfile⟩ := runFile_of_noText (fun text h => htext ⟨text, h⟩) o depth name
    simp only [hfile]
    exact .pure _

end Script

/-- The step from a line to the next one. -/
theorem Prompt.onlyReads_next (depth : Nat) (line? : Option (List UInt8)) :
    OnlyReads (Prompt.next depth line?) := by
  cases line? with
  | none => exact .pure _
  | some l =>
    cases htext : String.fromUTF8? (ByteArray.mk l.toArray) with
    | none =>
      have hnext (s : Session) : Prompt.next depth (some l) s =
          (.stop ("Error: " ++ Script.notText ++ "\n") 1, s) := by
        rw [Prompt.next, htext]
      exact (OnlyReads.pure _).congr hnext
    | some line =>
      have hnext (s : Session) : Prompt.next depth (some l) s =
          (.line, print (print (s.eval depth line).2 (echo (s.eval depth line).1)) "> ") := by
        rw [Prompt.next, htext]
        rfl
      refine OnlyReads.congr ?_ hnext
      exact ((OnlyReads.eval depth line).bind fun r => onlyReads_print () (echo r)).bind
        fun _ => onlyReads_print _ "> "

/-- What a command starts with is such a step as well. -/
theorem Options.onlyReads_start (o : Options) (depth : Nat) : OnlyReads (o.start depth) := by
  obtain ⟨source?, files, flags⟩ := o
  cases source? with
  | some source =>
    exact (Script.onlyReads_run _ depth source).bind fun r =>
      Script.onlyReads_next _ [] (r.mapError .source)
  | none =>
    cases files with
    | nil => exact onlyReads_print _ "> "
    | cons name rest => exact .pure _

/-! ## Executions -/

/-- A command that goes on as given is executed, after `n` moments were taken, and comes to the
report.  Each step is tried until enough of the moments were taken. -/
inductive Executes (o : Options) (depth : Nat) (content : String → Except String ByteArray)
    (instants : Nat → Instant) :
    Nat → Array UInt8 → List (List UInt8) → Next × Session → Report → Prop
  | stop {n : Nat} {out : Array UInt8} {lines : List (List UInt8)} {stderr : String} {status : Nat}
      {s : Session} :
      Executes o depth content instants n out lines (.stop stderr status, s)
        ⟨out ++ s.state.sink.written, stderr, status⟩
  | file {n m : Nat} {out : Array UInt8} {lines : List (List UInt8)} {name : String}
      {rest : List String} {s : Session} {state : Next × Session} {report : Report} (hm : n ≤ m)
      (hstep : (drained s).attempt (Session.moments instants m)
        (fun s => Script.next o rest (Script.runFile o depth name (content name) s)) = some state)
      (hrest : Executes o depth content instants m (out ++ s.state.sink.written) lines state
        report) :
      Executes o depth content instants n out lines (.file name rest, s) report
  | line {n m : Nat} {out : Array UInt8} {lines : List (List UInt8)} {s : Session}
      {state : Next × Session} {report : Report} (hm : n ≤ m)
      (hstep : (drained s).attempt (Session.moments instants m)
        (Prompt.next depth lines.head?) = some state)
      (hrest : Executes o depth content instants m (out ++ s.state.sink.written) lines.tail state
        report) :
      Executes o depth content instants n out lines (.line, s) report

variable {o : Options} {depth n : Nat} {content : String → Except String ByteArray}
  {instants : Nat → Instant} {out : Array UInt8} {lines : List (List UInt8)}
  {state : Next × Session} {report : Report}

theorem ofNext_line (s : Session) : Report.ofNext o depth content out lines (.line, s) =
    Report.ofNext o depth content (out ++ s.state.sink.written) lines.tail
      (Prompt.next depth lines.head? (drained s)) := by
  cases lines with
  | nil => rw [Report.ofNext, List.tail_nil, List.head?_nil]
  | cons l rest => rw [Report.ofNext, List.tail_cons, List.head?_cons]

theorem Executes.eq_ofNext (h : Executes o depth content instants n out lines state report) :
    report = Report.ofNext o depth content out lines (state.1, state.2.showing instants) := by
  induction h with
  | stop =>
    rw [Report.ofNext]
    rfl
  | @file _ _ _ _ name rest s _ _ _ hstep _ ih =>
    have hsame := Session.step_of_attempt (Script.onlyReads_file o depth name rest _) hstep
    rw [Report.ofNext]
    exact ih.trans (congrArg _ hsame.symm)
  | @line _ _ _ lines s _ _ _ hstep _ ih =>
    have hsame := Session.step_of_attempt (Prompt.onlyReads_next depth lines.head?) hstep
    rw [ofNext_line]
    exact ih.trans (congrArg _ hsame.symm)

/-- The step from a line is taken once enough of the moments were taken. -/
theorem Executes.of_line {s : Session}
    (hrest : ∀ m state, (state.1, state.2.showing instants) =
        Prompt.next depth lines.head? ((drained s).showing instants) →
      Executes o depth content instants m (out ++ s.state.sink.written) lines.tail state report) :
    Executes o depth content instants n out lines (.line, s) report := by
  have hreads := Prompt.onlyReads_next depth lines.head?
  obtain ⟨m, hm, r, hr⟩ := Session.exists_attempt hreads instants n (drained s)
  exact .line hm hr (hrest m r (Session.step_of_attempt hreads hr).symm)

/-- An execution comes to its end, and the report is that with the clock that shows the moments. -/
theorem executes_iff : Executes o depth content instants n out lines state report ↔
    report = Report.ofNext o depth content out lines (state.1, state.2.showing instants) := by
  refine ⟨Executes.eq_ofNext, ?_⟩
  rintro rfl
  obtain ⟨todo, s⟩ := state
  generalize hx : (todo, s.showing instants) = x
  induction out, lines, x using Report.ofNext.induct o depth content generalizing n todo s with
  | case1 =>
    obtain ⟨rfl, rfl⟩ := Prod.mk.inj hx
    rw [Report.ofNext]
    exact .stop
  | case2 out lines name rest _ ih =>
    obtain ⟨rfl, rfl⟩ := Prod.mk.inj hx
    have hreads := Script.onlyReads_file o depth name rest (content name)
    obtain ⟨m, hm, r, hr⟩ := Session.exists_attempt hreads instants n (drained s)
    rw [Report.ofNext]
    exact .file hm hr (ih _ _ (Session.step_of_attempt hreads hr).symm)
  | case3 out _ ih =>
    obtain ⟨rfl, rfl⟩ := Prod.mk.inj hx
    rw [Report.ofNext]
    exact .of_line fun _ _ hstate => ih _ _ hstate
  | case4 out l rest _ ih =>
    obtain ⟨rfl, rfl⟩ := Prod.mk.inj hx
    rw [Report.ofNext]
    exact .of_line fun _ _ hstate => ih _ _ hstate

/-- A command is executed to its end, and comes to one report: that with the clock that shows the
moments at which it was read. -/
theorem execution_of_options (o : Options) (depth : Nat)
    (content : String → Except String ByteArray) (stdin : List UInt8) (instants : Nat → Instant)
    (s : Session) (report : Report) :
    (∃ n state, s.attempt (Session.moments instants n) (o.start depth) = some state ∧
      Executes o depth content instants n #[] (Prompt.lines stdin) state report) ↔
    report = Report.ofOptions o depth content stdin (s.showing instants) := by
  have hreads := o.onlyReads_start depth
  rw [Report.ofOptions]
  constructor
  · rintro ⟨n, state, hstart, hexecutes⟩
    rw [Session.step_of_attempt hreads hstart]
    exact executes_iff.1 hexecutes
  · intro hreport
    obtain ⟨n, -, state, hstart⟩ := Session.exists_attempt hreads instants 0 s
    rw [Session.step_of_attempt hreads hstart] at hreport
    exact ⟨n, state, hstart, executes_iff.2 hreport⟩

end CommandLine

end ScopeScript
