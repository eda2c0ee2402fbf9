import Tiny.Proofs.Layout
import Tiny.Proofs.Reporting

/-!
# Runs that agree

Two runs over one source agree in what they have in common.  Runs that only differ in what they list
give the same compilation.  A run that only scans and a run that parses agree on the lexical errors:
the parser names no other ones, and it does not pass one over in silence.

* `Source.outcome_ofBytes`: a source that can be read is compiled, unless its code is too long.
* `compile_switches`: what is listed does not influence a compilation.
* `Source.lexical_ofBytes`: what parsing reports about unknown tokens, scanning reports too.
* `compile_lexical`: so the lexical errors of every run are among those of scanning.
-/

namespace Tiny

/-! ### Sources that are compiled -/

/-- The source holds a program whose code is so long that a branch may be out of range. -/
def Overlong (bytes : List UInt8) : Prop :=
  ∃ tree after, Scanner.program (Scanner.start bytes) = .ok (tree, #[]) after ∧
    2147483648 ≤ (Assembly.program (Symbols.ofProgram tree) tree).length

namespace Source

variable {source : Source} {bytes : List UInt8}

/-- What parsing makes of a source is what a scanner at its start gives. -/
theorem program_ofBytes (of : source.Of (.ofBytes bytes)) {tree : Program} {found : Diagnostics}
    (h : source.parsed = .ok (tree, found)) :
    ∃ after, Scanner.program (Scanner.start bytes) = .ok (tree, found) after := by
  obtain ⟨tree', found', j, hServe, hParsed, -⟩ := serve_ofBytes of
  obtain ⟨rfl, rfl⟩ := Prod.mk.inj (Except.ok.inj (h.symm.trans hParsed))
  exact ⟨_, Scanner.runOn_of_serve (Scanner.quiet_start bytes) hServe⟩

/-- **A source that can be read is compiled**, unless its code is too long. -/
theorem outcome_ofBytes (of : source.Of (.ofBytes bytes)) (fileName : String) {sink : Sink}
    (unlimited : sink.limit = none) (options : Options) :
    (∃ compiled, source.outcome fileName (.ok sink) options = .ok compiled) ∨
      (∃ fault, source.outcome fileName (.ok sink) options = .error fault) ∧
        options.stopAfter = .code ∧ Overlong bytes := by
  obtain ⟨tokens, hTokens⟩ := tokens_ofBytes of
  obtain ⟨tree, found, hParsed, intact, untyped⟩ := parsed_ofBytes of
  cases last : options.stopAfter with
  | scan => exact .inl ⟨_, outcome_of_scan _ _ last hTokens⟩
  | parse => exact .inl ⟨_, outcome_of_parse _ _ last hParsed⟩
  | analyze => exact .inl ⟨_, outcome_of_analyze _ _ last hParsed⟩
  | code =>
    rw [outcome_of_code _ _ last hParsed]
    rcases coded_cases untyped intact rfl fileName unlimited options.traceCode with
      ⟨compiled, hCoded, -, -⟩ | ⟨fault, symbols, hCoded, hNone, hSymbols, hLong⟩
    · exact .inl ⟨compiled, hCoded⟩
    · refine .inr ⟨⟨fault, hCoded⟩, rfl, ?_⟩
      rcases analysed_cases tree found with ⟨hFound, hSame⟩ | ⟨rfl, hSame⟩
      · rw [hSame] at hNone
        exact absurd hNone hFound
      · obtain ⟨after, hProgram⟩ := program_ofBytes of hParsed
        rw [hSame] at hSymbols hLong
        obtain rfl := Option.some.inj hSymbols
        rw [Program.assembly_check] at hLong
        exact ⟨tree, after, hProgram, hLong⟩

/-! ### Switches -/

/-- How a compilation ends depends on its last stage and on the comments in its code. -/
theorem outcome_congr {options options' : Options} (stage : options.stopAfter = options'.stopAfter)
    (comments : options.traceCode = options'.traceCode) (fileName : String)
    (codeSink : Except Fault Sink) :
    source.outcome fileName codeSink options = source.outcome fileName codeSink options' := by
  unfold outcome
  rw [stage, comments]

end Source

/-- Nothing is listed. -/
def Options.Silent (options : Options) : Prop :=
  options.echoSource = false ∧ options.traceScan = false ∧ options.traceParse = false ∧
    options.traceAnalyze = false

/-- **What is listed does not influence a compilation.**  Two runs up to the same stage, both with
comments in their code or both without, end alike: with the same diagnostics, tree, symbols and
code.  They differ in their listings only, and nothing is listed if nothing is asked for.  Such a
run gives a compilation, unless its code is so long that a branch may be out of range. -/
theorem compile_switches {options options' : Options}
    (stage : options.stopAfter = options'.stopAfter)
    (comments : options.traceCode = options'.traceCode) (bytes : List UInt8) (fileName : String)
    (written code : ByteArray) :
    let run := fun options => compile (.ofBytes bytes) fileName (.ok { written := code }) options
      { listing := { written } }
    ∃ outcome opened, ∃ listed listed' : ByteArray,
      run options = ending outcome ⟨{ written := written ++ listed }, opened⟩ ∧
      run options' = ending outcome ⟨{ written := written ++ listed' }, opened⟩ ∧
      (options.Silent → listed = ByteArray.empty) ∧
      ((∃ compiled, outcome = .ok compiled) ∨
        (∃ fault, outcome = .error fault) ∧ options.stopAfter = .code ∧ Overlong bytes) := by
  intro run
  obtain ⟨source, of⟩ := exists_source (.ofBytes bytes)
  have hRun : ∀ options, run options =
      ending (source.outcome fileName (.ok { written := code }) options)
        ⟨{ written := written ++ (source.listing options options.stopAfter).toUTF8 },
          source.opens options.stopAfter⟩ := fun options =>
    (Compile.goes_compile of fileName _).unlimited rfl
  have hRun' := hRun options'
  rw [← stage, ← source.outcome_congr stage comments] at hRun'
  refine ⟨_, _, _, _, hRun options, hRun', fun silent => ?_,
    source.outcome_ofBytes of fileName rfl options⟩
  obtain ⟨echoSource, traceScan, traceParse, traceAnalyze, traceCode, stopAfter⟩ := options
  obtain ⟨rfl, rfl, rfl, rfl⟩ := silent
  rw [source.listing_silent of]
  rfl

/-- The bytes of `read x;` and, on the next line, `write x/2`.  Between them stands a comment with a
byte that is no text. -/
def halvedSource : List UInt8 :=
  [114, 101, 97, 100, 32, 120, 59, 123, 255, 125, 10, 119, 114, 105, 116, 101, 32, 120, 47, 50]

/-- The program in these bytes. -/
def halvedTree : Program :=
  [.read "x" 1,
   .write (.binary .div (.reference "x" 2 .unresolved) (.constant 2 2 .unresolved) 2 .unresolved) 2]

/-- With everything listed and with nothing listed, this program gives the same compilation. -/
theorem compile_switches_halved :
    ∃ compiled opened listed,
      compile (.ofBytes halvedSource) "halved.tm" (.ok {}) { traceCode := true } {} =
        .ok compiled ⟨{}, opened⟩ ∧
      compile (.ofBytes halvedSource) "halved.tm" (.ok {}) (.all .code) {} =
        .ok compiled ⟨{ written := listed }, opened⟩ := by
  obtain ⟨scanner, hParse⟩ : ∃ scanner, Scanner.program (Scanner.start halvedSource) =
      .ok (halvedTree, #[]) scanner := ⟨_, by cbv⟩
  obtain ⟨outcome, opened, listed, listed', hPlain, hAll, silent, hEnd⟩ :=
    @compile_switches { traceCode := true } (.all .code) rfl rfl halvedSource "halved.tm"
      ByteArray.empty ByteArray.empty
  rw [silent ⟨rfl, rfl, rfl, rfl⟩] at hPlain
  rcases hEnd with ⟨compiled, rfl⟩ | ⟨-, -, tree, after, hTree, hLong⟩
  · exact ⟨compiled, opened, _, hPlain, hAll⟩
  · obtain ⟨hSame, -⟩ := ok_inj (hParse.symm.trans hTree)
    obtain ⟨rfl, -⟩ := Prod.mk.inj hSame
    exact absurd hLong (by decide)

/-! ### Lexical errors -/

theorem mem_lexicalErrors {tokens : List Token} {diagnostic : Diagnostic} :
    diagnostic ∈ Compile.lexicalErrors tokens ↔
      ∃ token ∈ tokens, token.kind = .unknown ∧
        diagnostic = ⟨.lexical, token.line, token.lexeme⟩ := by
  simp only [Compile.lexicalErrors, List.mem_toArray, List.mem_map, List.mem_filter,
    decide_eq_true_eq]
  constructor
  · rintro ⟨token, ⟨member, unknown⟩, rfl⟩
    exact ⟨token, member, unknown, rfl⟩
  · rintro ⟨token, member, unknown, rfl⟩
    exact ⟨token, ⟨member, unknown⟩, rfl⟩

theorem lexicalErrors_eq_empty {tokens : List Token} (h : Grammar.Known tokens) :
    Compile.lexicalErrors tokens = #[] := by
  refine Array.eq_empty_iff_forall_not_mem.mpr fun diagnostic member => ?_
  obtain ⟨token, hToken, unknown, -⟩ := mem_lexicalErrors.mp member
  exact (h token hToken).2 unknown

/-- **Parsing and scanning agree on the unknown tokens of a source.**  A lexical error that parsing
reports is one that scanning reports, and if scanning reports one, parsing reports something. -/
theorem Source.lexical_ofBytes {source : Source} {bytes : List UInt8}
    (of : source.Of (.ofBytes bytes)) :
    ∃ tokens last drained tree found,
      Scanner.drain (Scanner.start bytes).tokenBound (Scanner.start bytes) =
        .ok (tokens ++ [last]) drained ∧ last.kind = .endOfFile ∧
      source.tokens = .ok (tokens ++ [last]) ∧ source.parsed = .ok (tree, found) ∧
      (∀ d ∈ found, d.concern = .lexical → d ∈ Compile.lexicalErrors tokens) ∧
      (found = #[] → Compile.lexicalErrors tokens = #[]) := by
  obtain ⟨k, tokens, tree', found', j', ordinary, hSpells, hDrain, hServe', hIff, -⟩ :=
    Scanner.exists_parse (Scanner.quiet_start bytes)
  obtain ⟨tree, found, j, hServe, hParsed, -⟩ := serve_ofBytes of
  obtain ⟨hSame, -⟩ := Prod.mk.inj (Except.ok.inj (hServe'.symm.trans hServe))
  obtain ⟨-, rfl⟩ := Prod.mk.inj hSame
  refine ⟨tokens, _, _, tree, found', hDrain, (ordinary.ends k).mpr (Nat.le_refl k),
    Compile.outcome_of_scanning (of.scan {}) hDrain, hParsed, fun d hd lexical => ?_,
    fun hFound => ?_⟩
  · obtain ⟨n, unknown, rfl⟩ := Parser.lexical_of_parse hServe hd lexical
    have hn : n < k := ordinary.lt_of_kind unknown nofun
    exact mem_lexicalErrors.mpr ⟨_, hSpells.mem (Nat.zero_le n) hn, unknown, rfl⟩
  · obtain ⟨d, rfl⟩ := hIff.mp hFound
    exact lexicalErrors_eq_empty d.known

/-- The analysis adds no lexical errors. -/
theorem lexical_of_analysed {tree : Program} {found : Diagnostics} {d : Diagnostic}
    (h : d ∈ (Compilation.analysed { diagnostics := found, program := tree }).diagnostics)
    (lexical : d.concern = .lexical) : d ∈ found := by
  rcases analysed_cases tree found with ⟨-, hSame⟩ | ⟨-, hSame⟩
  · rw [hSame] at h
    exact h
  · rw [hSame] at h
    rw [tree.typing_check d h] at lexical
    cases lexical

/-- What a run that parses reports: errors of its tokens only if scanning reports them too, and
something if scanning reports anything.  Then there is no code. -/
structure Compilation.Agrees (compiled scanned : Compilation) : Prop where
  lexical : ∀ d ∈ compiled.diagnostics, d.concern = .lexical → d ∈ scanned.diagnostics
  rejects : scanned.diagnostics ≠ #[] → compiled.diagnostics ≠ #[] ∧ compiled.code = none

section

variable {tokens : List Token} {tree : Program} {found : Diagnostics}

theorem Compilation.Agrees.coded {compiled compiled' scanned : Compilation}
    (h : compiled.Agrees scanned) (same : compiled'.diagnostics = compiled.diagnostics)
    (code : compiled'.code.isSome = true → compiled'.diagnostics = #[]) :
    compiled'.Agrees scanned where
  lexical := by
    rw [same]
    exact h.lexical
  rejects := by
    intro hScanned
    obtain ⟨hSome, -⟩ := h.rejects hScanned
    rw [← same] at hSome
    exact ⟨hSome, Option.not_isSome_iff_eq_none.mp fun isSome => hSome (code isSome)⟩

theorem agrees_parsed
    (lexical : ∀ d ∈ found, d.concern = .lexical → d ∈ Compile.lexicalErrors tokens)
    (silent : found = #[] → Compile.lexicalErrors tokens = #[]) :
    Compilation.Agrees { diagnostics := found, program := tree }
      { diagnostics := Compile.lexicalErrors tokens } :=
  ⟨lexical, fun hScanned => ⟨fun hFound => hScanned (silent hFound), rfl⟩⟩

theorem agrees_analysed
    (lexical : ∀ d ∈ found, d.concern = .lexical → d ∈ Compile.lexicalErrors tokens)
    (silent : found = #[] → Compile.lexicalErrors tokens = #[]) :
    (Compilation.analysed { diagnostics := found, program := tree }).Agrees
      { diagnostics := Compile.lexicalErrors tokens } where
  lexical := fun d hd hLexical => lexical d (lexical_of_analysed hd hLexical) hLexical
  rejects := by
    intro hScanned
    have hFound : found ≠ #[] := fun hFound => hScanned (silent hFound)
    rcases analysed_cases tree found with ⟨-, hSame⟩ | ⟨hNone, -⟩
    · rw [hSame]
      exact ⟨hFound, rfl⟩
    · exact absurd hNone hFound

/-- How a run that parses ends, compared with scanning. -/
theorem Source.outcome_agrees {source : Source} {bytes : List UInt8}
    (of : source.Of (.ofBytes bytes)) (hParsed : source.parsed = .ok (tree, found))
    (lexical : ∀ d ∈ found, d.concern = .lexical → d ∈ Compile.lexicalErrors tokens)
    (silent : found = #[] → Compile.lexicalErrors tokens = #[]) (fileName : String) {sink : Sink}
    (unlimited : sink.limit = none) {options : Options} (parses : options.stopAfter ≠ .scan) :
    (∃ compiled, source.outcome fileName (.ok sink) options = .ok compiled ∧
      compiled.Agrees { diagnostics := Compile.lexicalErrors tokens }) ∨
    (∃ fault, source.outcome fileName (.ok sink) options = .error fault) ∧
      Compile.lexicalErrors tokens = #[] ∧ options.stopAfter = .code ∧ Overlong bytes := by
  have agrees := @agrees_analysed _ tree _ lexical silent
  obtain ⟨tree', found', hParsed', intact, untyped⟩ := parsed_ofBytes of
  obtain ⟨rfl, rfl⟩ := Prod.mk.inj (Except.ok.inj (hParsed'.symm.trans hParsed))
  rcases source.outcome_ofBytes of fileName unlimited options with
    ⟨compiled, hOk⟩ | ⟨⟨fault, hError⟩, hStage, overlong⟩
  · refine .inl ⟨compiled, hOk, ?_⟩
    cases last : options.stopAfter with
    | scan => exact absurd last parses
    | parse =>
      rw [outcome_of_parse _ _ last hParsed] at hOk
      obtain rfl := Except.ok.inj hOk
      exact agrees_parsed lexical silent
    | analyze =>
      rw [outcome_of_analyze _ _ last hParsed] at hOk
      obtain rfl := Except.ok.inj hOk
      exact agrees
    | code =>
      rw [outcome_of_code _ _ last hParsed] at hOk
      rcases coded_cases untyped intact rfl fileName unlimited options.traceCode with
        ⟨_, hCoded, gated, same⟩ | ⟨_, _, hCoded, -⟩
      · obtain rfl := Except.ok.inj (hCoded.symm.trans hOk)
        exact agrees.coded same fun isSome => (gated.code.mp isSome).2
      · rw [hCoded] at hOk
        cases hOk
  · refine .inr ⟨⟨fault, hError⟩, ?_, hStage, overlong⟩
    rw [outcome_of_code _ _ hStage hParsed] at hError
    rcases coded_cases untyped intact rfl fileName unlimited options.traceCode with
      ⟨_, hCoded, -⟩ | ⟨_, _, -, hNone, -⟩
    · rw [hCoded] at hError
      cases hError
    · exact Classical.not_not.mp fun hScanned => (agrees.rejects hScanned).1 hNone

end

/-- **Every run knows the same lexical errors.**  Scanning reports the tokens that are unknown.  A
run that also parses reports an unknown token only as scanning does; and if there is one, it reports
something and gives no code.  It can only fail if there is none, because a branch is too long. -/
theorem compile_lexical {options options' : Options} (scans : options.stopAfter = .scan)
    (parses : options'.stopAfter ≠ .scan) (bytes : List UInt8) (fileName : String)
    (written code : ByteArray) :
    let run := fun options => compile (.ofBytes bytes) fileName (.ok { written := code }) options
      { listing := { written } }
    ∃ tokens last drained scanned after,
      (Scanner.drain (Scanner.start bytes).tokenBound (Scanner.start bytes) =
        .ok (tokens ++ [last]) drained ∧ last.kind = .endOfFile) ∧
      run options = .ok scanned after ∧
      (∀ d, d ∈ scanned.diagnostics ↔ ∃ token ∈ tokens, token.kind = .unknown ∧
        d = ⟨.lexical, token.line, token.lexeme⟩) ∧
      ((∃ compiled after', run options' = .ok compiled after' ∧ compiled.Agrees scanned) ∨
        (∃ fault after', run options' = .error fault after') ∧ scanned.diagnostics = #[] ∧
          options'.stopAfter = .code ∧ Overlong bytes) := by
  intro run
  obtain ⟨source, of⟩ := exists_source (.ofBytes bytes)
  obtain ⟨tokens, last, drained, tree, found, hDrain, hLast, hTokens, hParsed, lexical, silent⟩ :=
    source.lexical_ofBytes of
  have hRun : ∀ options, run options =
      ending (source.outcome fileName (.ok { written := code }) options) _ := fun options =>
    (Compile.goes_compile of fileName _).unlimited rfl
  have hErrors : Compile.lexicalErrors (tokens ++ [last]) = Compile.lexicalErrors tokens := by
    unfold Compile.lexicalErrors
    simp [hLast]
  have hScan := hRun options
  rw [Source.outcome_of_scan _ _ scans hTokens, hErrors] at hScan
  refine ⟨tokens, last, drained, _, _, ⟨hDrain, hLast⟩, hScan, fun d => mem_lexicalErrors, ?_⟩
  have hRun' := hRun options'
  rcases source.outcome_agrees of hParsed lexical silent fileName
      (show Sink.limit { written := code } = none from rfl) parses with
    ⟨compiled, hOutcome, agrees⟩ | ⟨⟨fault, hOutcome⟩, hNone, hStage, overlong⟩
  · rw [hOutcome] at hRun'
    exact .inl ⟨compiled, _, hRun', agrees⟩
  · rw [hOutcome] at hRun'
    exact .inr ⟨⟨fault, _, hRun'⟩, hNone, hStage, overlong⟩

/-- The bytes of `x:=#`. -/
def strayedSource : List UInt8 :=
  [120, 58, 61, 35]

/-- Scanning reports the last byte of this source, so there is no code for it. -/
theorem compile_lexical_strayed :
    ∃ scanned after compiled after',
      compile (.ofBytes strayedSource) "strayed.tm" (.ok {}) { stopAfter := .scan } {} =
        .ok scanned after ∧
      ⟨.lexical, 1, "#"⟩ ∈ scanned.diagnostics ∧
      compile (.ofBytes strayedSource) "strayed.tm" (.ok {}) {} {} = .ok compiled after' ∧
      compiled.diagnostics ≠ #[] ∧ compiled.code = none := by
  obtain ⟨tokens, last, drained, scanned, after, ⟨hDrain, -⟩, hScan, hErrors, hParse⟩ :=
    @compile_lexical { stopAfter := .scan } {} rfl nofun strayedSource "strayed.tm"
      ByteArray.empty ByteArray.empty
  obtain ⟨drained', hTokens⟩ : ∃ drained', Scanner.drain
      (Scanner.start strayedSource).tokenBound (Scanner.start strayedSource) =
        .ok ([⟨.identifier, "x", 1⟩, ⟨.assign, ":=", 1⟩, ⟨.unknown, "#", 1⟩] ++
          [⟨.endOfFile, "", 1⟩]) drained' := ⟨_, by cbv⟩
  obtain ⟨hSame, -⟩ := ok_inj (hDrain.symm.trans hTokens)
  obtain ⟨rfl, -⟩ := List.append_inj' hSame rfl
  have member : ⟨.lexical, 1, "#"⟩ ∈ scanned.diagnostics :=
    (hErrors _).mpr ⟨⟨.unknown, "#", 1⟩, by simp, rfl, rfl⟩
  have hSome : scanned.diagnostics ≠ #[] := Array.ne_empty_of_mem member
  rcases hParse with ⟨compiled, after', hRun, agrees⟩ | ⟨-, hNone, -⟩
  · obtain ⟨hRejected, hCode⟩ := agrees.rejects hSome
    exact ⟨scanned, after, compiled, after', hScan, member, hRun, hRejected, hCode⟩
  · exact absurd hNone hSome

end Tiny
