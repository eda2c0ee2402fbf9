import Tiny.Compilation
import Tiny.Proofs.Echoing

/-!
# The stages of a compilation

What the stages make of a source depends neither on the listing nor on what is written to it.  So a
compilation is known by three things: the text for the listing, how it ends, and whether it opens
the sink for the code.  All that is written to the listing is written before that sink is opened.

* `Source`: what scanning and parsing make of a source; `exists_source`: there is such a thing.
* `Source.upTo`, `Source.listing`: the result and the listing of the stages before the code.
* `goes_compile`: a compilation writes its listing and comes to its end, unless there is no room for
  the listing.
-/

namespace Tiny

namespace Compile

variable {α : Type}

/-- The session with a listing, in which the sink for the code was opened or not. -/
def inSession (_ : Unit) (opened : Bool) (listing : Sink) : Session := ⟨listing, opened⟩

theorem shows_listing : listingPart.Shows inSession :=
  ⟨fun _ _ _ => rfl, fun _ _ _ _ => rfl⟩

theorem prints_trace (switch : Bool) (text : String) :
    Prints inSession (trace switch text) () (fun _ => if switch then text else "") (.ok ()) () :=
  prints_switch shows_listing fun _ _ => rfl

/-- What a scanner writes and how it ends, seen from a session. -/
theorem prints_scanning {work : Scan α} (listed : Scanner.Listed work) (feed : Feed) :
    ∃ (text : Bool → Bool → String) (outcome : Except Fault α), text false false = "" ∧
      ∀ options, Prints inSession (scanning feed options work) ()
        (fun _ => text options.echoSource options.traceScan) outcome () := by
  obtain ⟨text, outcome, position', hText, prints⟩ := listed ⟨feed, 0⟩
  refine ⟨text, outcome, hText, fun options => ⟨?_, ?_⟩⟩
  · intro opened listing listing' hWrite
    have hWork : work { feed, listing, options } = _ := prints.fits hWrite
    show scanning feed options work ⟨listing, opened⟩ = _
    rw [scanning, hWork]
    cases outcome with
    | ok result => rfl
    | error fault => rfl
  · intro opened listing fault listing' hWrite
    obtain ⟨stopped, hStop⟩ := prints.exceeds hWrite
    have hWork : work { feed, listing, options } = _ := hStop
    refine ⟨(), ?_⟩
    show scanning feed options work ⟨listing, opened⟩ = _
    rw [scanning, hWork]
    rfl

/-- A scanner that ends well at the start of a feed does so in every session. -/
theorem outcome_of_scanning {work : Scan α} {feed : Feed} {text : String}
    {outcome : Except Fault α} {result : α} {after : Scanner}
    (prints : Prints inSession (scanning feed {} work) () (fun _ => text) outcome ())
    (h : work { feed } = .ok result after) : outcome = .ok result := by
  have hPrinted : scanning feed {} work {} = _ :=
    @prints.fits false {} _ (Sink.write_of_unlimited rfl text)
  have hScanned : scanning feed {} work {} = .ok result { listing := after.listing } := by
    rw [scanning, h]
  rw [hScanned] at hPrinted
  cases outcome with
  | ok result' => rw [(ok_inj hPrinted).1]
  | error fault => cases hPrinted

end Compile

/-! ### Sources -/

/-- What scanning and parsing make of a source.  What they write to the listing depends on whether
lines and tokens are echoed. -/
structure Source where
  scanText : Bool → Bool → String
  tokens : Except Fault (List Token)
  parseText : Bool → Bool → String
  parsed : Except Fault (Program × Diagnostics)

namespace Source

open Compile

/-- This is what scanning and parsing make of a feed. -/
structure Of (source : Source) (feed : Feed) : Prop where
  scanSilent : source.scanText false false = ""
  scan : ∀ options, Prints inSession
    (scanning feed options do Scanner.drain (← get).tokenBound) ()
    (fun _ => source.scanText options.echoSource options.traceScan) source.tokens ()
  parseSilent : source.parseText false false = ""
  parse : ∀ options, Prints inSession (scanning feed options Scanner.program) ()
    (fun _ => source.parseText options.echoSource options.traceScan) source.parsed ()

end Source

theorem exists_source (feed : Feed) : ∃ source : Source, source.Of feed := by
  have listed : Scanner.Listed (do Scanner.drain (← get).tokenBound) :=
    Scanner.listed_get_bind (fun _ _ _ => rfl) fun _ => Scanner.listed_drain _
  obtain ⟨scanText, tokens, scanSilent, scan⟩ := Compile.prints_scanning listed feed
  obtain ⟨parseText, parsed, parseSilent, parse⟩ :=
    Compile.prints_scanning Scanner.listed_program feed
  exact ⟨⟨scanText, tokens, parseText, parsed⟩, scanSilent, scan, parseSilent, parse⟩

namespace Compilation

/-- A compilation that was parsed, with its analysis.  It is analysed only if nothing was
reported. -/
def analysed (parsed : Compilation) : Compilation :=
  if parsed.diagnostics.hasErrors then parsed
  else
    { diagnostics := parsed.program.check.2, program := parsed.program.check.1,
      symbols := some (Symbols.ofProgram parsed.program) }

/-- What is listed for the tree of a compilation. -/
def treeText (options : Options) (parsed : Compilation) : String :=
  if options.traceParse then "\nSyntax tree:\n" ++ parsed.program.dump else ""

/-- What is listed for the analysis of a compilation. -/
def analysisText (options : Options) (parsed : Compilation) : String :=
  if parsed.diagnostics.hasErrors then ""
  else if options.traceAnalyze then
    "\nBuilding Symbol Table...\n" ++
      (("\nSymbol table:\n\n" ++ (Symbols.ofProgram parsed.program).dump ++
        "\nChecking Types...\n") ++ "\nType Checking Finished\n")
  else ""

/-- The symbols for which code is due: analysis was reached and nothing was reported. -/
def due (analysed : Compilation) : Option Symbols :=
  if analysed.diagnostics.hasErrors then none else analysed.symbols

/-- A compilation with its code, if it is due. -/
def coded (fileName : String) (codeSink : Except Fault Sink) (traceCode : Bool)
    (analysed : Compilation) : Except Fault Compilation :=
  match analysed.due with
  | none => .ok analysed
  | some symbols => do
    let sink ← codeSink
    match analysed.program.generate symbols traceCode fileName sink with
    | (.ok _, code) => .ok { analysed with code := some code }
    | (.error fault, _) => .error fault

end Compilation

namespace Source

/-- The compilation of a source that is parsed. -/
def read (source : Source) : Except Fault Compilation :=
  source.parsed.map fun parsed => { diagnostics := parsed.2, program := parsed.1 }

/-- The compilation of a source up to a stage, without code. -/
def upTo (source : Source) : Stage → Except Fault Compilation
  | .scan => source.tokens.map fun tokens => { diagnostics := Compile.lexicalErrors tokens }
  | .parse => source.read
  | .analyze | .code => source.read.map Compilation.analysed

/-- A text about a source that could be parsed. -/
def tell (source : Source) (text : Compilation → String) : String :=
  match source.read with
  | .ok parsed => text parsed
  | .error _ => ""

/-- The listing of a source that is parsed. -/
def readText (source : Source) (options : Options) : String :=
  source.parseText options.echoSource options.traceScan ++
    source.tell (Compilation.treeText options)

/-- The listing of a source up to a stage. -/
def listing (source : Source) (options : Options) : Stage → String
  | .scan => source.scanText options.echoSource options.traceScan
  | .parse => source.readText options
  | .analyze | .code => source.readText options ++ source.tell (Compilation.analysisText options)

/-- How the compilation of a source ends. -/
def outcome (source : Source) (fileName : String) (codeSink : Except Fault Sink)
    (options : Options) : Except Fault Compilation :=
  if options.stopAfter = .code then
    source.upTo .code >>= Compilation.coded fileName codeSink options.traceCode
  else source.upTo options.stopAfter

/-- Whether the compilation of a source opens the sink for the code. -/
def opens (source : Source) (stage : Stage) : Bool :=
  match stage, source.upTo .code with
  | .code, .ok analysed => analysed.due.isSome
  | _, _ => false

section

variable {source : Source} {options : Options} {tokens : List Token} {tree : Program}
  {found : Diagnostics} (fileName : String) (codeSink : Except Fault Sink)

theorem outcome_of_scan (last : options.stopAfter = .scan) (h : source.tokens = .ok tokens) :
    source.outcome fileName codeSink options =
      .ok { diagnostics := Compile.lexicalErrors tokens } := by
  rw [outcome, last, if_neg nofun, upTo, h]
  rfl

theorem outcome_of_parse (last : options.stopAfter = .parse)
    (h : source.parsed = .ok (tree, found)) :
    source.outcome fileName codeSink options = .ok { diagnostics := found, program := tree } := by
  rw [outcome, last, if_neg nofun, upTo, read, h]
  rfl

theorem outcome_of_analyze (last : options.stopAfter = .analyze)
    (h : source.parsed = .ok (tree, found)) :
    source.outcome fileName codeSink options =
      .ok (Compilation.analysed { diagnostics := found, program := tree }) := by
  rw [outcome, last, if_neg nofun, upTo, read, h]
  rfl

theorem outcome_of_code (last : options.stopAfter = .code)
    (h : source.parsed = .ok (tree, found)) :
    source.outcome fileName codeSink options =
      (Compilation.analysed { diagnostics := found, program := tree }).coded fileName codeSink
        options.traceCode := by
  rw [outcome, if_pos last, upTo, read, h]
  rfl

theorem opens_code (h : source.parsed = .ok (tree, found)) :
    source.opens .code =
      (Compilation.analysed { diagnostics := found, program := tree }).due.isSome := by
  simp only [opens, upTo, read, h]
  rfl

end

end Source

/-! ### Compilations -/

namespace Compile

variable {feed : Feed} {source : Source} {options : Options}

/-- The stages before the code. -/
def front (feed : Feed) (options : Options) : Compile Compilation := do
  let (program, diagnostics) ← parse feed options
  if diagnostics.hasErrors then return { diagnostics, program }
  else
    let (checked, symbols, diagnostics) ← analyze program options
    return { diagnostics, program := checked, symbols := some symbols }

/-- The stage of the code. -/
def back (fileName : String) (codeSink : Except Fault Sink) (options : Options)
    (analysed : Compilation) : Compile Compilation :=
  match analysed.due with
  | none => return analysed
  | some symbols => do
    let code ← generate analysed.program symbols fileName codeSink options
    return { analysed with code := some code }

theorem prints_scan (of : source.Of feed) :
    Prints inSession (scan feed options) () (fun _ => source.listing options .scan)
      (source.upTo .scan) () :=
  (of.scan options).map _

theorem prints_parse (of : source.Of feed) :
    Prints inSession (parse feed options) () (fun _ => source.readText options)
      source.parsed () := by
  have prints := of.parse options
  simp only [Source.readText, Source.tell, Source.read]
  cases hParsed : source.parsed with
  | error fault =>
    rw [hParsed] at prints
    exact prints.bind_error.congr fun _ => String.append_empty.symm
  | ok parsed =>
    obtain ⟨tree, found⟩ := parsed
    rw [hParsed] at prints
    exact prints.bind ((prints_trace _ _).map fun _ => (tree, found))

theorem prints_analyze (tree : Program) :
    Prints inSession (analyze tree options) ()
      (fun _ => Compilation.analysisText options { program := tree })
      (.ok (tree.check.1, Symbols.ofProgram tree, tree.check.2)) () := by
  have hLast := (prints_trace options.traceAnalyze "\nType Checking Finished\n").map
    fun _ => (tree.check.1, Symbols.ofProgram tree, tree.check.2)
  have hTable : Prints inSession
      (trace options.traceAnalyze ("\nSymbol table:\n\n" ++ (Symbols.ofProgram tree).dump ++
        "\nChecking Types...\n") >>= fun _ => _) () _ _ () := (prints_trace _ _).bind hLast
  have hFirst : Prints inSession (analyze tree options) () _ _ () :=
    (prints_trace _ _).bind hTable
  refine hFirst.congr fun _ => ?_
  rw [Compilation.analysisText]
  cases options.traceAnalyze with
  | false => rfl
  | true => rfl

theorem prints_front (of : source.Of feed) :
    Prints inSession (front feed options) () (fun _ => source.listing options .analyze)
      (source.upTo .analyze) () := by
  have prints := @prints_parse feed source options of
  simp only [Source.listing, Source.upTo, Source.tell, Source.read]
  cases hParsed : source.parsed with
  | error fault =>
    rw [hParsed] at prints
    exact prints.bind_error.congr fun _ => String.append_empty.symm
  | ok parsed =>
    obtain ⟨tree, found⟩ := parsed
    rw [hParsed] at prints
    refine Prints.bind prints ?_
    simp only [Except.map, Compilation.analysed, Compilation.analysisText]
    by_cases hFound : found.hasErrors = true
    · rw [if_pos hFound, if_pos hFound, if_pos hFound]
      exact prints_pure _
    · rw [if_neg hFound, if_neg hFound, if_neg hFound]
      exact (prints_analyze tree).map _

/-- Work that writes a text to the listing, then opens the sink for the code or not, and comes to
its end.  If there is no room for the text, it stops there, and nothing was opened. -/
structure Goes {α : Type} (work : Compile α) (text : String) (outcome : Except Fault α)
    (opens : Bool) : Prop where
  fits : ∀ {session listing}, Sink.write text session.listing = .ok () listing →
    work session = ending outcome ⟨listing, session.opened || opens⟩
  exceeds : ∀ {session fault listing}, Sink.write text session.listing = .error fault listing →
    work session = .error fault ⟨listing, session.opened⟩

theorem Goes.unlimited {α : Type} {work : Compile α} {text : String} {outcome : Except Fault α}
    {opens : Bool} (h : Goes work text outcome opens) {session : Session}
    (unlimited : session.listing.limit = none) :
    work session = ending outcome ⟨session.listing.add text, session.opened || opens⟩ :=
  h.fits (Sink.write_of_unlimited unlimited text)

theorem goes_of_prints {α : Type} {work : Compile α} {text : String} {outcome : Except Fault α}
    (h : Prints inSession work () (fun _ => text) outcome ()) : Goes work text outcome false where
  fits := by
    intro session listing hWrite
    rw [Bool.or_false]
    exact h.fits hWrite
  exceeds := by
    intro session fault listing hWrite
    obtain ⟨_, hStop⟩ := h.exceeds hWrite
    exact hStop

/-- The stage of the code does not write to the listing. -/
theorem back_eq (fileName : String) (codeSink : Except Fault Sink) (analysed : Compilation)
    (session : Session) :
    back fileName codeSink options analysed session =
      ending (analysed.coded fileName codeSink options.traceCode)
        ⟨session.listing, session.opened || analysed.due.isSome⟩ := by
  unfold back Compilation.coded
  cases analysed.due with
  | none =>
    rw [Option.isSome_none, Bool.or_false]
    rfl
  | some symbols =>
    rw [Option.isSome_some, Bool.or_true]
    cases codeSink with
    | error fault => rfl
    | ok sink =>
      simp only [generate, bind, Except.bind]
      cases analysed.program.generate symbols options.traceCode fileName sink with
      | mk outcome code =>
        cases outcome with
        | ok _ => rfl
        | error fault => rfl

theorem compile_of_parse (h : options.stopAfter = .parse) (fileName : String)
    (codeSink : Except Fault Sink) : compile feed fileName codeSink options = do
      let (program, diagnostics) ← parse feed options
      return { diagnostics, program } := by
  unfold compile
  rw [if_neg (by rw [h]; exact nofun)]
  refine bind_congr fun parsed => ?_
  exact if_pos (.inr h)

theorem compile_of_analyze (h : options.stopAfter = .analyze) (fileName : String)
    (codeSink : Except Fault Sink) :
    compile feed fileName codeSink options = front feed options := by
  unfold compile front
  rw [if_neg (by rw [h]; exact nofun)]
  refine bind_congr fun parsed => ?_
  simp only [h, reduceCtorEq, or_false, or_true, if_true]

theorem compile_of_code (h : options.stopAfter = .code) (fileName : String)
    (codeSink : Except Fault Sink) :
    compile feed fileName codeSink options =
      front feed options >>= back fileName codeSink options := by
  unfold compile front
  rw [if_neg (by rw [h]; exact nofun), bind_assoc]
  refine bind_congr fun parsed => ?_
  obtain ⟨tree, found⟩ := parsed
  simp only [h, reduceCtorEq, or_false]
  by_cases hFound : found.hasErrors = true
  · rw [if_pos hFound, if_pos hFound, pure_bind, back, Compilation.due, if_pos hFound]
  · rw [if_neg hFound, if_neg hFound, bind_assoc]
    refine bind_congr fun analysed => ?_
    obtain ⟨checked, symbols, violations⟩ := analysed
    simp only [pure_bind, back, Compilation.due]
    by_cases hTypes : violations.hasErrors = true
    · rw [if_pos hTypes, if_pos hTypes]
    · rw [if_neg hTypes, if_neg hTypes]

/-- **A compilation writes its listing and comes to its end**, unless there is no room for the
listing.  Then this is all that happens. -/
theorem goes_compile (of : source.Of feed) (fileName : String) (codeSink : Except Fault Sink) :
    Goes (compile feed fileName codeSink options) (source.listing options options.stopAfter)
      (source.outcome fileName codeSink options) (source.opens options.stopAfter) := by
  cases h : options.stopAfter with
  | scan =>
    have hScan : compile feed fileName codeSink options = scan feed options := if_pos h
    rw [hScan, Source.outcome, h]
    exact goes_of_prints (prints_scan of)
  | parse =>
    rw [compile_of_parse h, Source.outcome, h]
    exact goes_of_prints ((prints_parse of).map _)
  | analyze =>
    rw [compile_of_analyze h, Source.outcome, h]
    exact goes_of_prints (prints_front of)
  | code =>
    have prints := @prints_front feed source options of
    have hUpTo : source.upTo .code = source.upTo .analyze := rfl
    rw [compile_of_code h, Source.outcome, if_pos h, hUpTo]
    refine ⟨fun {session listing} hWrite => ?_, fun {session fault listing} hWrite => ?_⟩
    · have hFront : front feed options session = _ := prints.fits hWrite
      cases hAnalysed : source.upTo .analyze with
      | error fault =>
        rw [hAnalysed] at hFront
        simp only [Source.opens, hUpTo, hAnalysed, Bool.or_false]
        exact bind_of_error hFront
      | ok analysed =>
        rw [hAnalysed] at hFront
        simp only [Source.opens, hUpTo, hAnalysed]
        exact (bind_of_ok hFront).trans (back_eq fileName codeSink analysed _)
    · obtain ⟨_, hStop⟩ := prints.exceeds hWrite
      exact bind_of_error hStop

end Compile

end Tiny
