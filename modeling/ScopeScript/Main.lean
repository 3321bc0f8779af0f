import ScopeScript.CommandLine.Report
import Std.Time.DateTime.Timestamp

/-!
# The command

Reads files, standard input and the clock for a command that goes on from file to file or from line
to line, and writes what it prints in between.  The loop takes the steps of `CommandLine.Executes`,
which come to the report of the command (`CommandLine.execution_of_options`).
-/

namespace ScopeScript.CommandLine

/-- The moment at which this is done. -/
def takeMoment : IO Instant := do
  return ⟨(← Std.Time.Timestamp.now).toNanosecondsSinceUnixEpoch.toInt⟩

/-- Takes a step of a session.  When it reads the clock further than the moments were taken, the
moment is taken, and the step is tried again. -/
partial def advance (taken : Array Instant) (step : Session → Next × Session) (s : Session) :
    IO (Array Instant × Next × Session) := do
  match s.attempt taken step with
  | some state => return (taken, state)
  | none => advance (taken.push (← takeMoment)) step s

/-- Writes what a session has printed. -/
def flush (s : Session) : IO Session := do
  let out ← IO.getStdout
  out.write ⟨s.state.sink.written⟩
  out.flush
  return drained s

/-- The content of a file, or the reason why there is none. -/
def readContent (name : String) : IO (Except String ByteArray) := do
  try
    return .ok (← IO.FS.readBinFile name)
  catch
    | .noFileOrDirectory .. => return .error "No such file or directory (os error 2)"
    | e => return .error (toString e)

/-- The next line of standard input with its newline, or nothing at its end. -/
partial def readLine (line : List UInt8) : IO (Option (List UInt8)) := do
  let bytes ← (← IO.getStdin).read 1
  match bytes[0]? with
  | none => return if line.isEmpty then none else some line.reverse
  | some b => if b = 10 then return some (b :: line).reverse else readLine (b :: line)

/-- Writes a report and gives its status. -/
def conclude (r : Report) : IO UInt32 := do
  (← IO.getStdout).write ⟨r.stdout⟩
  (← IO.getStdout).flush
  (← IO.getStderr).putStr r.stderr
  return r.status.toUInt32

/-- Goes on as given, with what is read from outside. -/
partial def goOn (o : Options) (taken : Array Instant) : Next × Session → IO UInt32
  | (.stop stderr status, s) => conclude ⟨s.state.sink.written, stderr, status⟩
  | (.file name rest, s) => do
    let s ← flush s
    let content ← readContent name
    let step s := Script.next o rest (Script.runFile o Session.ampleDepth name content s)
    let (taken, state) ← advance taken step s
    goOn o taken state
  | (.line, s) => do
    let s ← flush s
    let line? ← readLine []
    let (taken, state) ← advance taken (Prompt.next Session.ampleDepth line?) s
    goOn o taken state

end ScopeScript.CommandLine

open ScopeScript CommandLine in
/-- Does what the arguments ask for. -/
def main (args : List String) : IO UInt32 := do
  match Request.ofArguments args with
  | .run o =>
    let (taken, state) ← advance #[] (o.start Session.ampleDepth) (.new none (.still ⟨0⟩))
    goOn o taken state
  | .version => conclude (.ofText versionText)
  | .help => conclude (.ofText helpText)
  | .misuse => conclude .misuse
