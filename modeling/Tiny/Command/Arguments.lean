import Tiny.Options

/-!
# Arguments

The arguments are one path, flags, and an optional output path.  A flag is a word behind two dashes;
`-v` and `-o` are short for `--verbose` and `--output`, and short ones can be joined.  The output
path follows its option in the same argument or is the next one.  Behind `--` only a path can stand.
Nothing may be given twice.
-/

namespace Tiny

/-- The flags. -/
inductive Flag where
  | lex
  | parse
  | analyze
  | echoSource
  | traceScan
  | traceParse
  | traceAnalyze
  | traceCode
  | allTraces
  | run
  | verbose
deriving DecidableEq, Repr

namespace Flag

/-- The flag of a long name. -/
def ofName? : String → Option Flag
  | "lex" => some .lex
  | "parse" => some .parse
  | "analyze" => some .analyze
  | "echo-source" => some .echoSource
  | "trace-scan" => some .traceScan
  | "trace-parse" => some .traceParse
  | "trace-analyze" => some .traceAnalyze
  | "trace-code" => some .traceCode
  | "all-traces" => some .allTraces
  | "run" => some .run
  | "verbose" => some .verbose
  | _ => none

end Flag

/-- Arguments as far as they were read. -/
structure Arguments where
  path : Option String := none
  output : Option String := none
  flags : List Flag := []
deriving DecidableEq, Repr

namespace Arguments

/-- Adds a flag. -/
def addFlag (arguments : Arguments) (flag : Flag) : Option Arguments :=
  if flag ∈ arguments.flags then none
  else some { arguments with flags := flag :: arguments.flags }

/-- Adds the output path. -/
def addOutput (arguments : Arguments) (value : List Char) : Option Arguments :=
  match arguments.output with
  | some _ => none
  | none => some { arguments with output := some (String.ofList value) }

/-- Adds the path. -/
def addPath (arguments : Arguments) (path : String) : Option Arguments :=
  match arguments.path with
  | some _ => none
  | none => some { arguments with path := some path }

/-- What an argument leaves to be done. -/
inductive Pending where
  | nothing
  /-- The next argument is the output path. -/
  | output
deriving DecidableEq, Repr

/-- The value behind an option in the same argument, without equal signs in front. -/
def joinedValue (value : List Char) : List Char :=
  value.dropWhile (· = '=')

/-- Reads a long option, given without its dashes.  What stands behind an equal sign is the value of
the option, and is ignored behind a flag. -/
def readLong (arguments : Arguments) (option : List Char) : Option (Arguments × Pending) :=
  let (name, value) := option.span (· ≠ '=')
  if name = "output".toList then
    match value with
    | [] => some (arguments, .output)
    | _ :: value => do
      let arguments ← arguments.addOutput (joinedValue value)
      return (arguments, .nothing)
  else do
    let flag ← Flag.ofName? (String.ofList name)
    let arguments ← arguments.addFlag flag
    return (arguments, .nothing)

/-- Reads short options that are joined, given without their dash. -/
def readShort (arguments : Arguments) : List Char → Option (Arguments × Pending)
  | [] => some (arguments, .nothing)
  | 'v' :: rest => do
    let arguments ← arguments.addFlag .verbose
    arguments.readShort rest
  | ['o'] => some (arguments, .output)
  | 'o' :: value => do
    let arguments ← arguments.addOutput (joinedValue value)
    return (arguments, .nothing)
  | _ => none

/-- Reads paths only. -/
def readPaths (arguments : Arguments) : List String → Option Arguments
  | [] => some arguments
  | path :: rest => do
    let arguments ← arguments.addPath path
    arguments.readPaths rest

/-- Whether an argument is a value: it does not start with a dash, or it is only a dash. -/
def isValue (argument : String) : Bool :=
  match argument.toList with
  | '-' :: _ :: _ => false
  | _ => true

/-- Drops dashes in front. -/
def dropDashes (argument : List Char) : List Char :=
  argument.dropWhile (· = '-')

/-- Reads arguments, the first of which may be an output path. -/
def readFrom (arguments : Arguments) (pending : Pending) : List String → Option Arguments
  | [] => if pending = .nothing then some arguments else none
  | argument :: rest =>
    match pending with
    | .output =>
      if isValue argument then do
        let arguments ← arguments.addOutput argument.toList
        arguments.readFrom .nothing rest
      else none
    | .nothing =>
      match argument.toList with
      | ['-', '-'] => arguments.readPaths rest
      | '-' :: '-' :: option => do
        let (arguments, pending) ← arguments.readLong (dropDashes option)
        arguments.readFrom pending rest
      | '-' :: c :: options => do
        let (arguments, pending) ← arguments.readShort (c :: options)
        arguments.readFrom pending rest
      | _ => do
        let arguments ← arguments.addPath argument
        arguments.readFrom .nothing rest

end Arguments

/-- What the command is asked to do. -/
structure Request where
  path : String
  output : Option String := none
  flags : List Flag := []
deriving DecidableEq, Repr

namespace Request

/-- Reads the arguments of the command, which are rejected if there is no path. -/
def ofArguments? (arguments : List String) : Option Request := do
  let read ← Arguments.readFrom {} .nothing arguments
  let path ← read.path
  return { path, output := read.output, flags := read.flags }

/-- Whether a flag is given. -/
def has (request : Request) (flag : Flag) : Bool :=
  flag ∈ request.flags

/-- The last stage that is asked for; the earliest one wins. -/
def stage (request : Request) : Stage :=
  if request.has .lex then .scan
  else if request.has .parse then .parse
  else if request.has .analyze then .analyze
  else .code

/-- The options for the compilation. -/
def options (request : Request) : Options :=
  if request.has .allTraces then .all request.stage
  else
    { echoSource := request.has .echoSource
      traceScan := request.has .traceScan
      traceParse := request.has .traceParse
      traceAnalyze := request.has .traceAnalyze
      traceCode := request.has .traceCode
      stopAfter := request.stage }

end Request

end Tiny
