import ScopeScript.Store.Basic

/-!
# The state of a run

What a running program reads and changes: the store of frames, the sink that it prints to, the
log of events, and the clock.  `Run` is the type of the steps that work on it; what a step has done
before it halts is kept.
-/

namespace ScopeScript

/-! ## Sinks -/

/-- What was printed, as UTF-8 bytes, and how many bytes there may be in all. -/
structure Sink where
  written : Array UInt8
  limit : Option Nat
deriving DecidableEq, Repr

/-- Whether all of `bytes` fits into the sink, and the sink with as many of them as fit. -/
def Sink.write (s : Sink) (bytes : Array UInt8) : Bool × Sink :=
  match s.limit with
  | none => (true, { s with written := s.written ++ bytes })
  | some limit =>
    let room := limit - s.written.size
    (bytes.size ≤ room, { s with written := s.written ++ bytes.take room })

/-! ## Events -/

/-- What is noted about a run. -/
inductive Event where
  /-- A source text was read as so many tokens, with the last `eof`. -/
  | scanned (tokens : Nat)
  /-- A source text was read as a program of so many statements. -/
  | parsed (statements : Nat)
  | declaringVariable (name : String) (constant : Bool)
  | declaringFunction (name : String) (arity : Nat)
  | callingNative (name : String) (args : Nat)
  | callingFunction (name : String) (args : Nat)
deriving DecidableEq, Repr

/-- The line that stands for an event in a log. -/
def Event.text : Event → String
  | .scanned n => "DEBUG scanned source tokens=" ++ n.repr
  | .parsed n => "DEBUG parsed program statements=" ++ n.repr
  | .declaringVariable name constant =>
    let mark := if constant then "true" else "false"
    "DEBUG declaring variable name=" ++ name ++ " is_const=" ++ mark
  | .declaringFunction name arity =>
    "DEBUG declaring function name=" ++ name ++ " arity=" ++ arity.repr
  | .callingNative name args =>
    "TRACE calling native function name=" ++ name ++ " args=" ++ args.repr
  | .callingFunction name args => "TRACE calling function name=" ++ name ++ " args=" ++ args.repr

/-! ## The clock -/

/-- A moment, as the nanoseconds since the start of 1970; before that they are negative. -/
structure Instant where
  nanoseconds : Int
deriving DecidableEq, Repr

/-- The seconds since 1970, unless the moment lies before. -/
def Instant.seconds (now : Instant) : Except Fault Float :=
  if now.nanoseconds < 0 then .error .clockBeforeEpoch
  else
    let n := now.nanoseconds.toNat
    .ok (Float.ofNat (n / 1000000000) + Float.ofNat (n % 1000000000) / 1000000000)

/-- What the clock shows, one reading after the other.  Nothing is said of how the moments follow
on one another: the clock of a machine can be set back. -/
structure Clock where
  /-- The moments shown at the readings, counted from zero. -/
  instants : Nat → Instant
  /-- How many readings were made. -/
  readings : Nat

namespace Clock

/-- The moment that the next reading shows. -/
def now (c : Clock) : Instant := c.instants c.readings

/-- The clock after one more reading. -/
def tick (c : Clock) : Clock := { c with readings := c.readings + 1 }

/-- The clock with other moments to show, as often read. -/
def showing (instants : Nat → Instant) (c : Clock) : Clock := { c with instants := instants }

/-- A clock that shows the same moment at every reading. -/
def still (now : Instant) : Clock := ⟨fun _ => now, 0⟩

end Clock

/-! ## Runs -/

/-- What a running program reads and changes. -/
structure State where
  store : Store
  sink : Sink
  events : Array Event
  clock : Clock

/-- A state with the given store, in which nothing has happened yet. -/
def State.ofStore (store : Store) (limit : Option Nat) (clock : Clock) : State :=
  ⟨store, ⟨#[], limit⟩, #[], clock⟩

/-- The state with a clock that shows other moments. -/
def State.showing (instants : Nat → Instant) (s : State) : State :=
  { s with clock := s.clock.showing instants }

/-- Steps of a run, which end with a result or halt. -/
abbrev Run := EStateM Halt State

namespace Run

/-- Halts since the program did something wrong. -/
def fail (f : Fault) : Run α := throw (.fault f)

/-- The result of a pure computation, or its fault. -/
def ofExcept : Except Fault α → Run α
  | .ok a => pure a
  | .error f => fail f

/-- Notes an event. -/
def emit (e : Event) : Run Unit := modify fun s => { s with events := s.events.push e }

/-- The value of `name` seen from `frame`. -/
def lookup (frame : FrameId) (name : String) : Run Value := do
  match (← get).store.lookup frame name with
  | .ok v => return v
  | .error h => throw h

/-- The first frame that binds `name`, seen from `frame`. -/
def resolve (frame : FrameId) (name : String) : Run FrameId := do
  match (← get).store.resolve frame name with
  | .ok owner => return owner
  | .error h => throw h

/-- The frame with the given number, as it is now. -/
def frame (id : FrameId) : Run Frame := do
  match (← get).store.frame id with
  | .ok f => return f
  | .error h => throw h

/-- Rebinds `name` as seen from `frame` and answers with its new value. -/
def assign (frame : FrameId) (name : String) (v : Value) : Run Value := do
  match (← get).store.assign frame name v with
  | .ok store => modify fun s => { s with store := store }; return v
  | .error h => throw h

/-- Binds `name` in `frame` and answers with its value. -/
def declare (frame : FrameId) (name : String) (v : Value) (constant : Bool) : Run Value := do
  match (← get).store.declare frame name v constant with
  | .ok store => modify fun s => { s with store := store }; return v
  | .error h => throw h

/-- Makes a frame below `parent`. -/
def newFrame (parent : Option FrameId) : Run FrameId := do
  let (id, store) := (← get).store.newFrame parent
  modify fun s => { s with store := store }
  return id

/-- Makes an identity for a function value. -/
def newClosure : Run Nat := do
  let (id, store) := (← get).store.newClosure
  modify fun s => { s with store := store }
  return id

/-- Prints a text; what fits of it is printed also when not all of it does. -/
def write (text : String) : Run Unit := do
  let (fits, sink) := (← get).sink.write text.toUTF8.data
  modify fun s => { s with sink := sink }
  if fits then return () else fail .sinkFull

/-- Reads the clock. -/
def readClock : Run Instant := do
  let clock := (← get).clock
  modify fun s => { s with clock := clock.tick }
  return clock.now

/-- The result of `m`, or the fault it halts with; any other halt goes on. -/
def attempt (m : Run α) : Run (Except Fault α) := fun s =>
  match m s with
  | .ok a s => .ok (.ok a) s
  | .error (.fault f) s => .ok (.error f) s
  | .error h s => .error h s

end Run

end ScopeScript
