import ScopeScript.Run.Eval
import ScopeScript.Syntax.Grammar
import ScopeScript.Store.Printer

/-!
# Sessions

A session runs programs one after the other in one frame, which lies below the global frame.  What
a program declares, the later ones see.
-/

namespace ScopeScript

/-- Reads a source text as a program, and notes how far that went. -/
def State.load (source : String) (s : State) : Except SyntaxError Program × State :=
  match Token.ofSource source with
  | .error e => (.error e, s)
  | .ok tokens =>
    let s := { s with events := s.events.push (.scanned tokens.length) }
    match Program.ofTokens tokens with
    | .error e => (.error e, s)
    | .ok p => (.ok p, { s with events := s.events.push (.parsed p.body.length) })

/-- Why a source text has no value. -/
inductive Failure where
  /-- It is not a program. -/
  | rejected (e : SyntaxError)
  /-- Its run ended without a value. -/
  | halted (h : Halt)

/-- The wording of a failure. -/
def Failure.message : Failure → String
  | .rejected e => e.message
  | .halted h => "runtime error: " ++ h.message

/-- The natives that programs may call, and the state that they leave to one another. -/
structure Session where
  host : Host
  state : State

namespace Session

/-- The frame of the names that every session has. -/
def globals : FrameId := 0

/-- The frame that programs run in. -/
def top : FrameId := 1

/-- A depth of nested calls that no program of a sensible size needs. -/
def ampleDepth : Nat := 1000000

/-- A session in which nothing was run, with a sink of at most `limit` bytes. -/
def new (limit : Option Nat) (clock : Clock) : Session :=
  ⟨Builtin.host, State.ofStore (Builtin.store.newFrame (some globals)).2 limit clock⟩

/-- A session that knows one native more, bound to a constant of the global frame.  A name that the
global frame binds already keeps its value. -/
def addNative (s : Session) (name : String) (act : List Value → Action) : Session :=
  let (n, host) := s.host.add name act
  match s.state.store.declare globals name (.native n) true with
  | .ok store => ⟨host, { s.state with store := store }⟩
  | .error _ => s

/-- Goes through the steps of a run. -/
def perform (s : Session) (m : Run α) : Except Halt α × Session :=
  match m s.state with
  | .ok a state => (.ok a, { s with state := state })
  | .error h state => (.error h, { s with state := state })

/-- Reads a source text as a program. -/
def load (s : Session) (source : String) : Except SyntaxError Program × Session :=
  let (r, state) := s.state.load source
  (r, { s with state := state })

/-- Runs a program in the frame of the session. -/
def run (s : Session) (depth : Nat) (p : Program) : Except Halt Value × Session :=
  s.perform (p.run s.host depth top)

/-- Reads a source text and runs it. -/
def eval (s : Session) (depth : Nat) (source : String) : Except Failure Value × Session :=
  match s.load source with
  | (.error e, s) => (.error (.rejected e), s)
  | (.ok p, s) =>
    match s.run depth p with
    | (.error h, s) => (.error (.halted h), s)
    | (.ok v, s) => (.ok v, s)

/-- The session with a clock that shows other moments. -/
def showing (instants : Nat → Instant) (s : Session) : Session :=
  { s with state := s.state.showing instants }

/-- Tries a step with the moments that were taken so far.  Behind them the clock shows one before
1970, and a step that reads it comes to nothing. -/
def attempt (taken : Array Instant) (step : Session → α × Session) (s : Session) :
    Option (α × Session) :=
  let r := step (s.showing fun i => taken.getD i ⟨-1⟩)
  if r.2.state.clock.readings ≤ taken.size then some r else none

/-- The text of the two frames that a session starts with. -/
def inspect (s : Session) : String :=
  "Interpreter \x7b globals: " ++ s.state.store.inspect globals ++ ", session: " ++
    s.state.store.inspect top ++ " \x7d"

end Session

end ScopeScript
