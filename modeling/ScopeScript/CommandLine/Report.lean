import ScopeScript.CommandLine.Prompt

/-!
# Reports

What a command prints and the status that it ends with, for given files and a given standard
input.  A command goes on from file to file or from line to line, and what it prints is written in
between.
-/

namespace ScopeScript.CommandLine

/-- What a command leaves behind. -/
structure Report where
  stdout : Array UInt8
  stderr : String
  status : Nat
deriving DecidableEq, Repr

/-- The name and version of the command. -/
def versionText : String := "vibescript 0.1.0\n"

/-- How the command is used. -/
def helpText : String :=
  "Interpreter for a small language with closures and object literals\n\n" ++
  "Usage: vibe [OPTIONS] [FILES]...\n\n" ++
  "Arguments:\n" ++
  "  [FILES]...  Scripts evaluated in order in the same session\n\n" ++
  "Options:\n" ++
  "  -e, --eval <SOURCE>  Evaluate SOURCE instead of files\n" ++
  "      --json           Print the final value as JSON\n" ++
  "      --print-result   Print the final value\n" ++
  "      --dump-tokens    Print the tokens of each script before evaluating it\n" ++
  "      --dump-ast       Print the syntax tree of each script before evaluating it\n" ++
  "  -h, --help           Print help\n" ++
  "  -V, --version        Print version\n"

/-- What is said of a command line that asks for nothing that can be done. -/
def misuseText : String := "error: invalid arguments\n\nFor more information, try '--help'.\n"

/-- The session after its output was written. -/
def drained (s : Session) : Session :=
  { s with state := { s.state with sink := { s.state.sink with written := #[] } } }

/-- What a command starts with. -/
def Options.start (o : Options) (depth : Nat) (s : Session) : Next × Session :=
  match o.source? with
  | some source =>
    let (r, s) := Script.run o depth source s
    Script.next o [] (r.mapError .source, s)
  | none => if o.files.isEmpty then (.line, Prompt.ask s) else Script.goOn o .null o.files s

namespace Report

/-- The report on a command that printed a text and did nothing else. -/
def ofText (text : String) : Report := ⟨text.toUTF8.data, "", 0⟩

/-- The report on a command line that asks for nothing that can be done. -/
def misuse : Report := ⟨#[], misuseText, 2⟩

/-- How much a command may still have to read, lines of the input apart. -/
def pending : Next → Nat
  | .file _ rest => rest.length + 1
  | .line => 1
  | .stop _ _ => 0

theorem pending_next_script (o : Options) (rest : List String)
    (r : Except Script.Failure Value × Session) :
    pending (Script.next o rest r).1 ≤ rest.length := by
  obtain ⟨r, s⟩ := r
  cases r with
  | error e => exact Nat.zero_le _
  | ok v => cases rest <;> exact Nat.le_refl _

theorem pending_next_prompt (depth : Nat) (l : List UInt8) (s : Session) :
    pending (Prompt.next depth (some l) s).1 ≤ 1 := by
  rw [Prompt.next]
  cases String.fromUTF8? (ByteArray.mk l.toArray) with
  | none => exact Nat.zero_le _
  | some line => exact Nat.le_refl _

/-- The report on a command that goes on as given, with the lines of the input that it has not read.
What it prints is written, behind `out`, before it reads anything more. -/
def ofNext (o : Options) (depth : Nat) (content : String → Except String ByteArray)
    (out : Array UInt8) : List (List UInt8) → Next × Session → Report
  | _, (.stop stderr status, s) => ⟨out ++ s.state.sink.written, stderr, status⟩
  | lines, (.file name rest, s) =>
    ofNext o depth content (out ++ s.state.sink.written) lines
      (Script.next o rest (Script.runFile o depth name (content name) (drained s)))
  | [], (.line, s) =>
    ofNext o depth content (out ++ s.state.sink.written) [] (Prompt.next depth none (drained s))
  | l :: lines, (.line, s) =>
    ofNext o depth content (out ++ s.state.sink.written) lines
      (Prompt.next depth (some l) (drained s))
termination_by lines next => lines.length + pending next.1
decreasing_by
  · exact Nat.add_lt_add_left (Nat.lt_succ_of_le (pending_next_script o rest _)) _
  · exact Nat.zero_lt_one
  · have hnext := pending_next_prompt depth l (drained s)
    show lines.length + pending (Prompt.next depth (some l) (drained s)).1 < lines.length + 1 + 1
    omega

/-- The report on a run with the given options. -/
def ofOptions (o : Options) (depth : Nat) (content : String → Except String ByteArray)
    (stdin : List UInt8) (s : Session) : Report :=
  ofNext o depth content #[] (Prompt.lines stdin) (o.start depth s)

/-- The report on a command with the given arguments, in the session `s`. -/
def ofArguments (args : List String) (depth : Nat) (content : String → Except String ByteArray)
    (stdin : List UInt8) (s : Session) : Report :=
  match Request.ofArguments args with
  | .run o => ofOptions o depth content stdin s
  | .version => ofText versionText
  | .help => ofText helpText
  | .misuse => misuse

end Report

end ScopeScript.CommandLine
