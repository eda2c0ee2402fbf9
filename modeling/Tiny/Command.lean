import Tiny.Command.Arguments
import Tiny.Command.Host
import Tiny.Command.Path
import Tiny.Compilation
import Tiny.Machine

/-!
# The command

The command compiles a source file to a code file beside it, and runs the code if asked to.  The
listing and the diagnostics are printed.  The code file is written only after a compilation
without diagnostics.
-/

namespace Tiny

/-- What makes the command fail. -/
inductive Failure where
  | noSource (path : String) (cause : OsFault)
  | compilation (fault : Fault)
  /-- The program has errors, this many. -/
  | rejected (count : Nat)
  | noCode (path : String) (cause : OsFault)
  | system (cause : OsFault)
  | notText
  | machine (fault : MachineFault)
  | input (word : String) (cause : NumberFault)
deriving DecidableEq, Repr

namespace Failure

/-- The wording of a failure.  The words of the system stand behind what was tried, also where they
are part of it. -/
def message : Failure → String
  | .noSource path cause => "file " ++ path ++ " not found: " ++ cause.message
  | .compilation (.io reason) => (Fault.io reason).message ++ ": " ++ reason
  | .compilation fault => fault.message
  | .rejected count => toString count ++ " error(s), no code generated"
  | .noCode path cause => "cannot write " ++ path ++ ": " ++ cause.message
  | .system cause => cause.message
  | .notText => "stream did not contain valid UTF-8"
  | .machine fault => fault.message
  | .input word cause => "bad input value " ++ Text.quote word ++ ": " ++ cause.message

end Failure

namespace Request

/-- The path of the source: the extension `tny` is added to a path without one. -/
def sourcePath (request : Request) : String :=
  match Path.extension? request.path with
  | none => Path.withExtension request.path "tny"
  | some _ => request.path

/-- The path of the code: the output path, or the path of the source with extension `tm`. -/
def codePath (request : Request) : String :=
  request.output.getD (Path.withExtension request.sourcePath "tm")

end Request

namespace Command

/-- The most steps that a program may run for. -/
def stepLimit : Nat := 10000000

/-- The numbers of an input text. -/
def inputWords (text : String) : Except Failure (List Int32) :=
  (Text.words text).mapM fun word =>
    (Decimal.readWord word.toList).mapError (.input word)

/-- The line that shows a word of output. -/
def outputLine (word : Int32) : String :=
  "OUT instruction prints: " ++ toString word.toInt ++ "\n"

variable {m : Type → Type} [Monad m]

/-- Goes on with a result, or fails. -/
def attempt {α : Type} (outcome : Except Failure α) : ExceptT Failure m α :=
  ExceptT.mk (pure outcome)

/-- Bytes that have to be text. -/
def textOf (bytes : ByteArray) : Except Failure String :=
  match String.fromUTF8? bytes with
  | some text => .ok text
  | none => .error .notText

/-- Runs the code file on the standard input, and prints the output if the program halts. -/
def simulate (host : Host m) (codePath : String) : ExceptT Failure m Unit := do
  let file ← host.readFile codePath
  let code ← attempt (file.mapError .system)
  let listing ← attempt (textOf code)
  let machine ← attempt ((Machine.load listing).mapError .machine)
  let input ← host.readInput
  let text ← attempt (textOf input)
  let words ← attempt (inputWords text)
  let output ← attempt ((machine.run words stepLimit).1.mapError .machine)
  host.print (String.join (output.toList.map outputLine))

/-- Compiles a source that was opened, and prints the listing and the diagnostics. -/
def compileSource (host : Host m) (request : Request) (feed : Feed) :
    ExceptT Failure m Compilation := do
  host.print ("\nTINY COMPILATION: " ++ request.sourcePath ++ "\n")
  match compile feed request.codePath (.ok {}) request.options {} with
  | .error fault session =>
    host.print session.listing.text
    throw (.compilation fault)
  | .ok compilation session =>
    host.print session.listing.text
    host.print (String.join (compilation.diagnostics.toList.map fun diagnostic =>
      ">>> " ++ diagnostic.message ++ "\n"))
    return compilation

/-- Does what is asked for. -/
def run (host : Host m) (request : Request) : ExceptT Failure m Unit := do
  let opened ← host.openSource request.sourcePath
  let feed ← attempt (opened.mapError (.noSource request.sourcePath))
  let compilation ← compileSource host request feed
  if compilation.succeeded then
    match compilation.code with
    | none => return ()
    | some code =>
      let written ← host.writeFile request.codePath code.written
      attempt (written.mapError (.noCode request.codePath))
      if request.has .run then simulate host request.codePath else return ()
  else throw (.rejected compilation.diagnostics.size)

end Command

end Tiny
