import ScopeScript.Run.State
import ScopeScript.Value.Printer

/-!
# Natives

A native is a function of the host.  What it does is an action: a tree of operations on the frame
it is called from, on the sink and on the clock, with a value or a fault at each end.  A host has
an action for each native that it knows, given the arguments of the call.
-/

namespace ScopeScript

/-- What a native does. -/
inductive Action where
  | done (v : Value)
  | fail (f : Fault)
  /-- Looks a name up in the calling frame. -/
  | lookup (name : String) (next : Except Fault Value → Action)
  /-- Assigns to a name in the calling frame. -/
  | assign (name : String) (v : Value) (next : Except Fault Value → Action)
  /-- Declares a name in the calling frame. -/
  | declare (name : String) (v : Value) (constant : Bool) (next : Except Fault Value → Action)
  /-- Asks which frame binds a name, as seen from the calling frame. -/
  | resolve (name : String) (next : Except Fault FrameId → Action)
  /-- Asks for the parent of the calling frame. -/
  | parent (next : Option FrameId → Action)
  /-- Asks whether the calling frame binds a name to a constant. -/
  | isConstant (name : String) (next : Bool → Action)
  /-- Prints a text. -/
  | print (text : String) (next : Except Fault Unit → Action)
  /-- Reads the clock. -/
  | clock (next : Instant → Action)

namespace Action

/-- Ends with the value or the fault of an operation. -/
def ofResult : Except Fault Value → Action
  | .ok v => done v
  | .error f => fail f

/-- Goes through an action that was called from `frame`. -/
def perform (frame : FrameId) : Action → Run Value
  | done v => return v
  | fail f => Run.fail f
  | lookup name next => do
    let r ← (Run.lookup frame name).attempt
    (next r).perform frame
  | assign name v next => do
    let r ← (Run.assign frame name v).attempt
    (next r).perform frame
  | declare name v constant next => do
    let r ← (Run.declare frame name v constant).attempt
    (next r).perform frame
  | resolve name next => do
    let r ← (Run.resolve frame name).attempt
    (next r).perform frame
  | parent next => do
    let f ← Run.frame frame
    (next f.parent).perform frame
  | isConstant name next => do
    let f ← Run.frame frame
    (next (f.isConstant name)).perform frame
  | print text next => do
    let r ← (Run.write text).attempt
    (next r).perform frame
  | clock next => do
    let now ← Run.readClock
    (next now).perform frame

end Action

/-- The actions of natives, at the places that their identities give. -/
structure Host where
  actions : Array (List Value → Action)

namespace Host

/-- What a native does for the given arguments; one that the host does not know returns null. -/
def action (h : Host) (n : Native) (args : List Value) : Action :=
  match h.actions[n.identity]? with
  | some act => act args
  | none => .done .null

/-- A host that knows one native more, and that native. -/
def add (h : Host) (name : String) (act : List Value → Action) : Native × Host :=
  (⟨h.actions.size, name⟩, ⟨h.actions.push act⟩)

end Host

/-! ## The natives of every session -/

namespace Builtin

/-- Does `act` if there are `expected` arguments. -/
def withArguments (name : String) (expected : Nat) (args : List Value) (act : Action) : Action :=
  if args.length = expected then act else .fail (.argumentCount name expected args.length)

/-- Prints the texts of the arguments on a line, with a blank between two of them. -/
def print (args : List Value) : Action :=
  .print (" ".intercalate (args.map Value.display) ++ "\n") fun
    | .ok () => .done .null
    | .error f => .fail f

/-- The seconds since 1970, at the moment of the call. -/
def clock (args : List Value) : Action :=
  withArguments "clock" 0 args (.clock fun now => .ofResult (now.seconds.map .number))

/-- The square root of a number. -/
def sqrt (args : List Value) : Action :=
  withArguments "sqrt" 1 args <|
    match args with
    | .number x :: _ => .done (.number x.sqrt)
    | v :: _ => .fail (.expectedNumber v.kind)
    | [] => .done .null

/-- The host of a session without further natives. -/
def host : Host := ⟨#[print, clock, sqrt]⟩

/-- The global frame: three values and the natives, all constant.  The name that was declared last
stands at the head. -/
def globals : Frame :=
  ⟨none,
    [("sqrt", .native ⟨2, "sqrt"⟩), ("clock", .native ⟨1, "clock"⟩),
      ("print", .native ⟨0, "print"⟩), ("null", .null), ("false", .bool false),
      ("true", .bool true)],
    ["sqrt", "clock", "print", "null", "false", "true"]⟩

/-- The store that holds the global frame alone. -/
def store : Store := ⟨#[globals], 0⟩

end Builtin

end ScopeScript
