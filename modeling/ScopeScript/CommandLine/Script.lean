import ScopeScript.CommandLine.Options
import ScopeScript.Json
import ScopeScript.Syntax.Tree
import ScopeScript.Session

/-!
# Running scripts

Scripts are run one after the other in one session, up to the first one that fails.  All output
goes to the sink of the session: the dumps of a script before what the script prints, and the value
of the last script at the end if none failed.
-/

namespace ScopeScript.CommandLine

/-- What a command does next. -/
inductive Next where
  /-- It opens the file `name`, with the files `rest` still to come. -/
  | file (name : String) (rest : List String)
  /-- It reads a line of the standard input. -/
  | line
  | stop (stderr : String) (status : Nat)
deriving DecidableEq, Repr

/-- Why a script ended without a value. -/
inductive Script.Failure where
  /-- A source text of the command line failed. -/
  | source (cause : ScopeScript.Failure)
  /-- A file could not be read as a text. -/
  | unreadable (name reason : String)
  /-- A file failed. -/
  | file (name : String) (cause : ScopeScript.Failure)

namespace Script

/-- The wording of the reason why a source text has no value, where nothing else is said of it. -/
def reason : ScopeScript.Failure → String
  | .rejected e => e.message
  | .halted h => h.message

/-- What is said of the failure of a command. -/
def Failure.message : Failure → String
  | .source cause => "Error: " ++ reason cause ++ "\n"
  | .unreadable name text =>
    "Error: failed to open " ++ name ++ "\n\nCaused by:\n    " ++ text ++ "\n"
  | .file name cause =>
    "Error: failed to run " ++ name ++ "\n\nCaused by:\n    " ++ reason cause ++ "\n"

/-- Why bytes are not a text. -/
def notText : String := "stream did not contain valid UTF-8"

end Script

/-- The session with a text printed to its sink. -/
def print (s : Session) (text : String) : Session :=
  (s.perform (Run.write text)).2

/-- The session with a line printed to its sink. -/
def printLine (s : Session) (line : String) : Session := print s (line ++ "\n")

namespace Script

/-- The dump of tokens. -/
def tokensText (tokens : List Token) : String := (Json.array (tokens.map Token.toJson)).pretty

/-- Prints the tokens of a source text if the options ask for it. -/
def dumpTokens (o : Options) (source : String) (s : Session) : Except SyntaxError Unit × Session :=
  if o.has .dumpTokens then
    match Token.ofSource source with
    | .ok tokens => (.ok (), printLine s (tokensText tokens))
    | .error e => (.error e, s)
  else (.ok (), s)

/-- Prints a program if the options ask for it. -/
def dumpAst (o : Options) (p : Program) (s : Session) : Session :=
  if o.has .dumpAst then printLine s p.toJson.pretty else s

/-- Runs a source text, and prints what the options ask for before that. -/
def run (o : Options) (depth : Nat) (source : String) (s : Session) :
    Except ScopeScript.Failure Value × Session :=
  match dumpTokens o source s with
  | (.error e, s) => (.error (.rejected e), s)
  | (.ok (), s) =>
    match s.load source with
    | (.error e, s) => (.error (.rejected e), s)
    | (.ok p, s) =>
      match (dumpAst o p s).run depth p with
      | (.error h, s) => (.error (.halted h), s)
      | (.ok v, s) => (.ok v, s)

/-- Runs the file `name`; its content is a text, or the reason why there is none. -/
def runFile (o : Options) (depth : Nat) (name : String) (content : Except String ByteArray)
    (s : Session) : Except Failure Value × Session :=
  match content with
  | .error text => (.error (.unreadable name text), s)
  | .ok bytes =>
    match String.fromUTF8? bytes with
    | none => (.error (.unreadable name notText), s)
    | some source =>
      match run o depth source s with
      | (.error cause, s) => (.error (.file name cause), s)
      | (.ok v, s) => (.ok v, s)

/-- Prints the value of the last script as the options ask for; JSON takes precedence. -/
def printResult (o : Options) (v : Value) (s : Session) : Session :=
  if o.has .json then printLine s v.toJson.pretty
  else if o.has .printResult then printLine s v.display
  else s

/-- Goes on to the first of the files, or to the end if there is none.  The value of the script
before them is `last`. -/
def goOn (o : Options) (last : Value) : List String → Session → Next × Session
  | [], s => (.stop "" 0, printResult o last s)
  | name :: rest, s => (.file name rest, s)

/-- Stops at a script that failed, and goes on to the files `rest` behind one that has a value. -/
def next (o : Options) (rest : List String) :
    Except Failure Value × Session → Next × Session
  | (.error e, s) => (.stop e.message 1, s)
  | (.ok v, s) => goOn o v rest s

end Script

end ScopeScript.CommandLine
