import Tiny.Code
import Tiny.Tree.Outline
import Tiny.Tree.Parser
import Tiny.Typing

/-!
# Compilation

A compilation goes through its stages in order: scanning and parsing, analysis, code.  A stage
starts only if the one before reported nothing and the options ask for it.  The sink for the code is
opened right before code is written.
-/

namespace Tiny

/-- What a compilation gives.  The symbols are there from analysis on, the code only if every stage
was finished without a diagnostic. -/
structure Compilation where
  diagnostics : Diagnostics := #[]
  program : Program := []
  symbols : Option Symbols := none
  code : Option Sink := none

namespace Compilation

/-- Whether nothing was reported. -/
def succeeded (compilation : Compilation) : Bool :=
  !compilation.diagnostics.hasErrors

end Compilation

/-- What a compilation leaves behind, also when a fault stops it: the listing, and whether the sink
for the code was asked for. -/
structure Session where
  listing : Sink := {}
  opened : Bool := false

/-- Work in a session. -/
abbrev Compile := EStateM Fault Session

namespace Compile

/-- The listing as a part of the session. -/
def listingPart : Focus Session Sink where
  get := Session.listing
  set listing session := { session with listing }

/-- Writes to the listing. -/
def write (text : String) : Compile Unit :=
  listingPart.on (Sink.write text)

/-- Writes to the listing if a switch is on. -/
def trace (switch : Bool) (text : String) : Compile Unit :=
  if switch then write text else return ()

/-- Runs a scanner on a feed, with the listing of the session. -/
def scanning {α : Type} (feed : Feed) (options : Options) (work : Scan α) : Compile α :=
  fun session =>
    match work { feed, listing := session.listing, options } with
    | .ok result scanner => .ok result { session with listing := scanner.listing }
    | .error fault scanner => .error fault { session with listing := scanner.listing }

/-- The diagnostics for tokens that are none. -/
def lexicalErrors (tokens : List Token) : Diagnostics :=
  ((tokens.filter fun token => token.kind = .unknown).map fun token =>
    ⟨.lexical, token.line, token.lexeme⟩).toArray

/-- Scans the whole source. -/
def scan (feed : Feed) (options : Options) : Compile Compilation := do
  let tokens ← scanning feed options do
    Scanner.drain (← get).tokenBound
  return { diagnostics := lexicalErrors tokens }

/-- Parses the source. -/
def parse (feed : Feed) (options : Options) : Compile (Program × Diagnostics) := do
  let (program, diagnostics) ← scanning feed options Scanner.program
  trace options.traceParse ("\nSyntax tree:\n" ++ program.dump)
  return (program, diagnostics)

/-- Collects the symbols of a program and checks its types. -/
def analyze (program : Program) (options : Options) :
    Compile (Program × Symbols × Diagnostics) := do
  trace options.traceAnalyze "\nBuilding Symbol Table...\n"
  let symbols := Symbols.ofProgram program
  trace options.traceAnalyze ("\nSymbol table:\n\n" ++ symbols.dump ++ "\nChecking Types...\n")
  let (checked, diagnostics) := program.check
  trace options.traceAnalyze "\nType Checking Finished\n"
  return (checked, symbols, diagnostics)

/-- Opens the sink for the code and writes the code. -/
def generate (program : Program) (symbols : Symbols) (fileName : String)
    (codeSink : Except Fault Sink) (options : Options) : Compile Sink := do
  modify fun session => { session with opened := true }
  match codeSink with
  | .error fault => throw fault
  | .ok sink =>
    match program.generate symbols options.traceCode fileName sink with
    | (.ok _, code) => return code
    | (.error fault, _) => throw fault

end Compile

/-- Compiles a source.  The code goes to `codeSink`, which may fail to open, and names the file
`fileName` in its comments. -/
def compile (feed : Feed) (fileName : String) (codeSink : Except Fault Sink) (options : Options) :
    Compile Compilation := do
  if options.stopAfter = .scan then
    Compile.scan feed options
  else
    let (program, diagnostics) ← Compile.parse feed options
    if diagnostics.hasErrors ∨ options.stopAfter = .parse then
      return { diagnostics, program }
    else
      let (checked, symbols, diagnostics) ← Compile.analyze program options
      if diagnostics.hasErrors ∨ options.stopAfter = .analyze then
        return { diagnostics, program := checked, symbols := some symbols }
      else
        let code ← Compile.generate checked symbols fileName codeSink options
        return { diagnostics, program := checked, symbols := some symbols, code := some code }

end Tiny
