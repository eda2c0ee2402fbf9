import Tiny.Proofs.Completion
import Tiny.Proofs.Following
import Tiny.Proofs.Staging

/-!
# Which stage gives what

A stage starts only if the stages before it reported nothing.  So the diagnostics of a compilation
are all about its text or all about its types, there are symbols only for a text without
diagnostics, and there is code only if there are none at all.  A compilation that goes on to a later
stage goes through the same as one that does not.

* `parsed_ofBytes`: what parsing makes of a source that can be read.
* `Gated`: what a compilation has, by its last stage and its diagnostics.
* `compile_gates`: this holds at every stage, and a later stage only adds to an earlier one.
-/

namespace Tiny

/-! ### Sources that can be read -/

namespace Source

variable {source : Source} {bytes : List UInt8}

theorem tokens_ofBytes (of : source.Of (.ofBytes bytes)) :
    ∃ tokens, source.tokens = .ok tokens := by
  obtain ⟨tokens, after, hDrain, -⟩ := Scanner.drain_quiet (Scanner.quiet_start bytes)
  exact ⟨tokens, Compile.outcome_of_scanning (of.scan {}) hDrain⟩

/-- The parser is served from the tokens of the source, and gives a program. -/
theorem serve_ofBytes (of : source.Of (.ofBytes bytes)) :
    ∃ tree found j,
      (Parser.parse ((Scanner.start bytes).tokenBound + 1)).serve
        (Scanner.start bytes).upcoming 0 = .ok ((tree, found), j) ∧
      source.parsed = .ok (tree, found) ∧ (found = #[] → Program.Intact tree) := by
  have quiet := Scanner.quiet_start bytes
  obtain ⟨k, hk, ordinary⟩ := Scanner.ordinary_upcoming quiet
  obtain ⟨tree, found, j, hServe, hIff, hTree⟩ := @Parser.serve_parse_iff _ _
    ((Scanner.start bytes).tokenBound + 1) ordinary (by unfold Scanner.tokenBound; omega)
  have hProgram : Scanner.program (Scanner.start bytes) = _ :=
    Scanner.runOn_of_serve quiet hServe
  refine ⟨tree, found, j, hServe, Compile.outcome_of_scanning (of.parse {}) hProgram,
    fun hFound => ?_⟩
  obtain ⟨d, hSpells⟩ := hIff.mp hFound
  rw [hTree d hSpells]
  exact d.intact_tree

/-- **A source that can be read is parsed.**  Nothing is reported about types, and if nothing is
reported at all, no part of the program is malformed. -/
theorem parsed_ofBytes (of : source.Of (.ofBytes bytes)) :
    ∃ tree found, source.parsed = .ok (tree, found) ∧ (found = #[] → Program.Intact tree) ∧
      ∀ d ∈ found, d.concern ≠ .typing := by
  obtain ⟨tree, found, j, hServe, hParsed, intact⟩ := serve_ofBytes of
  obtain ⟨-, -, -, -, untyped⟩ :=
    (Parser.follows_parse (Nat.le_refl _)).serve (fun _ => rfl) hServe
  exact ⟨tree, found, hParsed, intact, untyped⟩

end Source

/-! ### Gates -/

/-- What a compilation up to a stage has, and whether it opened the sink for the code. -/
structure Gated (stage : Stage) (compilation : Compilation) (opened : Bool) : Prop where
  opened : opened = true ↔ compilation.code.isSome = true
  code : compilation.code.isSome = true ↔ stage = .code ∧ compilation.diagnostics = #[]
  symbols : compilation.symbols.isSome = true ↔
    (stage = .analyze ∨ stage = .code) ∧ ∀ d ∈ compilation.diagnostics, d.concern = .typing
  unmixed : (∀ d ∈ compilation.diagnostics, d.concern = .typing) ∨
    ∀ d ∈ compilation.diagnostics, d.concern ≠ .typing
  lexical : stage = .scan → ∀ d ∈ compilation.diagnostics, d.concern = .lexical

theorem gated_scanned (tokens : List Token) :
    Gated .scan { diagnostics := Compile.lexicalErrors tokens } false := by
  have hLexical : ∀ d ∈ Compile.lexicalErrors tokens, d.concern = .lexical := by
    intro d hd
    obtain ⟨token, -, rfl⟩ := List.mem_map.mp (List.mem_toArray.mp hd)
    rfl
  refine ⟨by simp, by simp, by simp, .inr fun d hd => ?_, fun _ => hLexical⟩
  rw [hLexical d hd]
  exact nofun

section

variable {tree : Program} {found : Diagnostics}

theorem gated_parsed (untyped : ∀ d ∈ found, d.concern ≠ .typing) :
    Gated .parse { diagnostics := found, program := tree } false :=
  ⟨by simp, by simp, by simp, .inr untyped, nofun⟩

/-- The diagnostics after the analysis, if something was reported before, and if not. -/
theorem analysed_cases (tree : Program) (found : Diagnostics) :
    (found ≠ #[] ∧ Compilation.analysed { diagnostics := found, program := tree } =
      { diagnostics := found, program := tree }) ∨
    (found = #[] ∧ Compilation.analysed { diagnostics := found, program := tree } =
      { diagnostics := tree.check.2, program := tree.check.1,
        symbols := some (Symbols.ofProgram tree) }) := by
  unfold Compilation.analysed
  by_cases hFound : found.hasErrors = true
  · refine .inl ⟨?_, if_pos hFound⟩
    rintro rfl
    cases hFound
  · exact .inr ⟨Diagnostics.eq_empty_of_hasErrors hFound, if_neg hFound⟩

/-- The analysis only adds diagnostics. -/
theorem exists_analysed_append (tree : Program) (found : Diagnostics) :
    ∃ more, (Compilation.analysed { diagnostics := found, program := tree }).diagnostics =
      found ++ more := by
  rcases analysed_cases tree found with ⟨-, h⟩ | ⟨rfl, h⟩
  · exact ⟨#[], by rw [h, Array.append_empty]⟩
  · exact ⟨tree.check.2, by rw [h, Array.empty_append]⟩

/-- Diagnostics that are about something else than types are not all about types. -/
theorem not_typing (some : found ≠ #[]) (untyped : ∀ d ∈ found, d.concern ≠ .typing) :
    ¬ ∀ d ∈ found, d.concern = .typing := by
  intro typing
  obtain ⟨d, hd⟩ := Array.exists_mem_of_ne_empty found some
  exact untyped d hd (typing d hd)

theorem gated_analysed (untyped : ∀ d ∈ found, d.concern ≠ .typing) {stage : Stage}
    (late : stage = .analyze ∨ stage = .code)
    (uncoded : stage = .code → (Compilation.analysed
      { diagnostics := found, program := tree }).diagnostics ≠ #[]) :
    Gated stage (Compilation.analysed { diagnostics := found, program := tree }) false := by
  have hStage : stage ≠ .scan := by rcases late with rfl | rfl <;> exact nofun
  rcases analysed_cases tree found with ⟨hFound, h⟩ | ⟨-, h⟩
  · rw [h] at uncoded ⊢
    refine ⟨by simp, ?_, ?_, .inr untyped, fun hScan => absurd hScan hStage⟩
    · exact iff_of_false nofun fun coded => uncoded coded.1 coded.2
    · exact iff_of_false nofun fun typed => not_typing hFound untyped typed.2
  · rw [h] at uncoded ⊢
    have typing := tree.typing_check
    refine ⟨by simp, ?_, ?_, .inl typing, fun hScan => absurd hScan hStage⟩
    · exact iff_of_false nofun fun coded => uncoded coded.1 coded.2
    · exact iff_of_true rfl ⟨late, typing⟩

/-- Code is due exactly if nothing was reported, also not in the analysis. -/
theorem due_cases {analysed : Compilation}
    (h : analysed = Compilation.analysed { diagnostics := found, program := tree }) :
    (analysed.diagnostics ≠ #[] ∧ analysed.due = none) ∨
    (found = #[] ∧ analysed.diagnostics = #[] ∧ analysed.program = tree.check.1 ∧
      analysed.symbols = some (Symbols.ofProgram tree) ∧
      analysed.due = some (Symbols.ofProgram tree)) := by
  by_cases hErrors : analysed.diagnostics.hasErrors = true
  · refine .inl ⟨fun hNone => ?_, if_pos hErrors⟩
    rw [hNone] at hErrors
    cases hErrors
  · have hNone := Diagnostics.eq_empty_of_hasErrors hErrors
    have hDue : analysed.due = analysed.symbols := if_neg hErrors
    rcases analysed_cases tree found with ⟨hFound, hSame⟩ | ⟨hFound, hSame⟩
    · rw [h, hSame] at hNone
      exact absurd hNone hFound
    · refine .inr ⟨hFound, hNone, ?_, ?_, hDue.trans ?_⟩
      · rw [h, hSame]
      · rw [h, hSame]
      · rw [h, hSame]

/-- A compilation with its code. -/
theorem gated_coded {analysed : Compilation} {symbols : Symbols} (none : analysed.diagnostics = #[])
    (hSymbols : analysed.symbols = some symbols) (code : Sink) :
    Gated .code { analysed with code := some code } true := by
  have typing : ∀ d ∈ analysed.diagnostics, d.concern = .typing := by
    rw [none]
    exact fun _ hd => absurd hd (Array.not_mem_empty _)
  refine ⟨iff_of_true rfl rfl, iff_of_true rfl ⟨rfl, none⟩, ?_, .inl typing, nofun⟩
  exact iff_of_true (by rw [hSymbols]; rfl) ⟨.inr rfl, typing⟩

/-- The stage of the code for a program that was analysed: it gives a compilation with the same
diagnostics, or the code is too long. -/
theorem coded_cases (untyped : ∀ d ∈ found, d.concern ≠ .typing)
    (intact : found = #[] → Program.Intact tree) {analysed : Compilation}
    (h : analysed = Compilation.analysed { diagnostics := found, program := tree })
    (fileName : String) {sink : Sink} (unlimited : sink.limit = none) (traceCode : Bool) :
    (∃ compiled, analysed.coded fileName (.ok sink) traceCode = .ok compiled ∧
      Gated .code compiled analysed.due.isSome ∧
      compiled.diagnostics = analysed.diagnostics) ∨
    ∃ fault symbols, analysed.coded fileName (.ok sink) traceCode = .error fault ∧
      analysed.diagnostics = #[] ∧ analysed.symbols = some symbols ∧
      2147483648 ≤ (Assembly.program symbols analysed.program).length := by
  unfold Compilation.coded
  rcases due_cases h with ⟨hSome, hDue⟩ | ⟨hFound, hNone, hProgram, hSymbols, hDue⟩
  · rw [hDue]
    refine .inl ⟨analysed, rfl, ?_, rfl⟩
    rw [h] at hSome ⊢
    exact gated_analysed untyped (.inr rfl) fun _ => hSome
  · rw [hDue]
    have covered : Program.Covered (Symbols.ofProgram tree) analysed.program := by
      rw [hProgram]
      exact Program.covered_check_of_intact (intact hFound)
    simp only [bind, Except.bind]
    cases hCode : analysed.program.generate (Symbols.ofProgram tree) traceCode fileName sink with
    | mk outcome code =>
      cases outcome with
      | ok _ => exact .inl ⟨_, rfl, gated_coded hNone hSymbols code, rfl⟩
      | error fault =>
        refine .inr ⟨fault, _, rfl, hNone, hSymbols, Nat.le_of_not_lt fun small => ?_⟩
        obtain ⟨entries, hRun, -⟩ := Code.generate_run covered small unlimited traceCode fileName
        rw [hCode] at hRun
        cases hRun

end

/-! ### Compilations -/

/-- With a listing that has no limit, all that a source has for its listing is written. -/
theorem Compile.compile_unlimited {source : Source} {feed : Feed} (of : source.Of feed)
    (fileName : String) (codeSink : Except Fault Sink) (options : Options) (stage : Stage)
    (written : ByteArray) :
    compile feed fileName codeSink { options with stopAfter := stage } { listing := { written } } =
      ending (source.outcome fileName codeSink { options with stopAfter := stage })
        ⟨Sink.add { written } (source.listing options stage), source.opens stage⟩ := by
  have goes := @goes_compile _ source { options with stopAfter := stage } of fileName codeSink
  have hGoes := @Goes.unlimited _ _ _ _ _ goes { listing := { written } } rfl
  cases stage <;> exact hGoes

/-- **Stages are gated, and later stages only add.**  For every source that can be read, with sinks
that do not fail, a compilation up to every stage before the code has what `Gated` says.  The
diagnostics and the listing after parsing are the beginning of those after the analysis.  With the
code it is the same, and the diagnostics and the listing are those after the analysis; only if the
code is so long that its branches may be out of range, no compilation may be given. -/
theorem compile_gates (bytes : List UInt8) (fileName : String) (options : Options)
    (written code : ByteArray) :
    let run := fun stage => compile (.ofBytes bytes) fileName (.ok { written := code })
      { options with stopAfter := stage } { listing := { written } }
    ∃ scanned parsed analysed s₁ s₂ s₃,
      (run .scan = .ok scanned s₁ ∧ Gated .scan scanned s₁.opened) ∧
      (run .parse = .ok parsed s₂ ∧ Gated .parse parsed s₂.opened) ∧
      (run .analyze = .ok analysed s₃ ∧ Gated .analyze analysed s₃.opened) ∧
      (∃ more, analysed.diagnostics = parsed.diagnostics ++ more) ∧
      (∃ more, s₃.listing.written = s₂.listing.written ++ more) ∧
      ((∃ compiled s₄, (run .code = .ok compiled s₄ ∧ Gated .code compiled s₄.opened) ∧
          compiled.diagnostics = analysed.diagnostics ∧ s₄.listing = s₃.listing) ∨
        ∃ fault s₄ symbols, run .code = .error fault s₄ ∧ s₄.listing = s₃.listing ∧
          analysed.diagnostics = #[] ∧ analysed.symbols = some symbols ∧
          2147483648 ≤ (Assembly.program symbols analysed.program).length) := by
  intro run
  obtain ⟨source, of⟩ := exists_source (.ofBytes bytes)
  obtain ⟨tokens, hTokens⟩ := source.tokens_ofBytes of
  obtain ⟨tree, found, hParsed, intact, untyped⟩ := source.parsed_ofBytes of
  let parsed : Compilation := { diagnostics := found, program := tree }
  let after : Stage → Session := fun stage =>
    ⟨Sink.add { written } (source.listing options stage), source.opens stage⟩
  have hRun : ∀ stage, run stage = ending (source.outcome fileName (.ok { written := code })
      { options with stopAfter := stage }) (after stage) := fun stage =>
    Compile.compile_unlimited of fileName (.ok { written := code }) options stage written
  have hScan : run .scan = .ok { diagnostics := Compile.lexicalErrors tokens } (after .scan) := by
    rw [hRun, Source.outcome_of_scan _ _ rfl hTokens]
    rfl
  have hParse : run .parse = .ok parsed (after .parse) := by
    rw [hRun, Source.outcome_of_parse _ _ rfl hParsed]
    rfl
  have hAnalyze : run .analyze = .ok parsed.analysed (after .analyze) := by
    rw [hRun, Source.outcome_of_analyze _ _ rfl hParsed]
    rfl
  have hCode : run .code = ending (parsed.analysed.coded fileName (.ok { written := code })
      options.traceCode) (after .code) := by
    rw [hRun, Source.outcome_of_code _ _ rfl hParsed]
  have hOpened : (after .code).opened = parsed.analysed.due.isSome := Source.opens_code hParsed
  refine ⟨_, _, _, _, _, _, ⟨hScan, gated_scanned tokens⟩, ⟨hParse, gated_parsed untyped⟩,
    ⟨hAnalyze, gated_analysed untyped (.inl rfl) nofun⟩, exists_analysed_append tree found,
    ?_, ?_⟩
  · refine ⟨(source.tell (Compilation.analysisText options)).toUTF8, ?_⟩
    exact congrArg Sink.written (Sink.add_add _ _ _).symm
  · rcases coded_cases untyped intact (rfl : parsed.analysed = _) fileName
      (show Sink.limit { written := code } = none from rfl) options.traceCode with
      ⟨compiled, hCoded, gated, hSame⟩ | ⟨fault, symbols, hCoded, hNone, hSymbols, hLong⟩
    · rw [hCoded] at hCode
      exact .inl ⟨compiled, _, ⟨hCode, hOpened ▸ gated⟩, hSame, rfl⟩
    · rw [hCoded] at hCode
      exact .inr ⟨fault, _, symbols, hCode, rfl, hNone, hSymbols, hLong⟩

end Tiny
