/-!
# Command lines

The arguments of the command ask for its version, for help, or for a run: of a source text given
by `-e`, of script files, or of the lines of standard input if neither is given.  Arguments are
read from left to right, and the first one that settles the matter counts.
-/

namespace ScopeScript.CommandLine

/-- An option without a value. -/
inductive Flag where
  /-- Print the value of the last script as JSON. -/
  | json
  /-- Print the value of the last script. -/
  | printResult
  /-- Print the tokens of each script before it is run. -/
  | dumpTokens
  /-- Print the program that each script is before it is run. -/
  | dumpAst
deriving DecidableEq, Repr

/-- The spelling of a flag behind two dashes. -/
def Flag.ofName? : String → Option Flag
  | "json" => some .json
  | "print-result" => some .printResult
  | "dump-tokens" => some .dumpTokens
  | "dump-ast" => some .dumpAst
  | _ => none

/-- What a run is asked to do. -/
structure Options where
  source? : Option String
  files : List String
  flags : List Flag
deriving DecidableEq, Repr

/-- Whether a flag is set. -/
def Options.has (o : Options) (f : Flag) : Bool := o.flags.contains f

/-- What a command line asks for. -/
inductive Request where
  | run (o : Options)
  | version
  | help
  /-- It asks for nothing that can be done. -/
  | misuse
deriving DecidableEq, Repr

/-- What a single argument is. -/
inductive Argument where
  /-- The end of the options: all further arguments are files. -/
  | endOfOptions
  | file (name : String)
  | flag (f : Flag)
  /-- The option for a source text, with its value if that is part of the argument. -/
  | source (text? : Option String)
  | version
  | help
  | unknown
deriving DecidableEq, Repr

namespace Argument

/-- The long option `name`, with the value behind an equals sign if there is one. -/
def ofLong (name : String) (value? : Option String) : Argument :=
  if name = "eval" then source value?
  else if value?.isSome then unknown
  else if name = "version" then version
  else if name = "help" then help
  else
    match Flag.ofName? name with
    | some f => flag f
    | none => unknown

/-- The short options `cs`, of which the first decides; what follows `e` is its value. -/
def ofShort : List Char → Argument
  | ['e'] => source none
  | 'e' :: '=' :: cs => source (some (String.ofList cs))
  | 'e' :: cs => source (some (String.ofList cs))
  | 'V' :: _ => version
  | 'h' :: _ => help
  | _ => unknown

/-- The kind of the argument with the characters `cs`. -/
def ofChars : List Char → Argument
  | ['-', '-'] => endOfOptions
  | '-' :: '-' :: cs =>
    let name := String.ofList (cs.takeWhile (· ≠ '='))
    match cs.dropWhile (· ≠ '=') with
    | [] => ofLong name none
    | _ :: value => ofLong name (some (String.ofList value))
  | ['-'] => file "-"
  | '-' :: cs => ofShort cs
  | cs => file (String.ofList cs)

/-- What the argument `s` is. -/
def ofString (s : String) : Argument := ofChars s.toList

end Argument

namespace Options

/-- The options before any argument is read. -/
def initial : Options := ⟨none, [], []⟩

/-- Reads the end of a command line: a source text and files exclude each other. -/
def finish (o : Options) : Request :=
  if o.source?.isSome && !o.files.isEmpty then .misuse else .run o

/-- Adds files; none of them may have an empty name. -/
def addFiles (o : Options) (names : List String) : Option Options :=
  if names.contains "" then none else some { o with files := o.files ++ names }

/-- Adds a flag, which must not be set yet. -/
def addFlag (o : Options) (f : Flag) : Option Options :=
  if o.has f then none else some { o with flags := o.flags ++ [f] }

/-- Sets the source text, which must not be set yet. -/
def setSource (o : Options) (text : String) : Option Options :=
  if o.source?.isSome then none else some { o with source? := some text }

/-- Reads the arguments behind those that gave `o`. -/
def read (o : Options) : List String → Request
  | [] => o.finish
  | arg :: rest =>
    match Argument.ofString arg with
    | .endOfOptions =>
      match o.addFiles rest with
      | some o => o.finish
      | none => .misuse
    | .file name =>
      match o.addFiles [name] with
      | some o => o.read rest
      | none => .misuse
    | .flag f =>
      match o.addFlag f with
      | some o => o.read rest
      | none => .misuse
    | .source (some text) =>
      match o.setSource text with
      | some o => o.read rest
      | none => .misuse
    | .source none =>
      match rest with
      | [] => .misuse
      | value :: rest =>
        match Argument.ofString value with
        | .file text =>
          match o.setSource text with
          | some o => o.read rest
          | none => .misuse
        | _ => .misuse
    | .version => .version
    | .help => .help
    | .unknown => .misuse

end Options

/-- What the given arguments ask for. -/
def Request.ofArguments (args : List String) : Request := Options.initial.read args

end ScopeScript.CommandLine
