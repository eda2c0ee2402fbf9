import Tiny.Proofs.Gating
import Tiny.Proofs.Insertion

/-!
# Layout does not matter

A source is compiled by its tokens.  Two sources with the same tokens, which may stand on other
lines, give the same: trees, symbols and diagnostics are the same up to lines, and the code is the
same to the byte.

* `Compilation.unlined`: a compilation without the lines in it.
* `tokens_alike`, `parsed_alike`: scanning and parsing depend on lines in the lines only.
* `analysed_unlined`, `coded_unlined`: so do the later stages.
* `compile_layout`: so compilation does not depend on layout, and layout may be put behind every
  token.
-/

namespace Tiny

namespace Compilation

/-- The compilation without lines.  Its code has none. -/
def unlined (compilation : Compilation) : Compilation where
  diagnostics := compilation.diagnostics.unlined
  program := Program.unlined compilation.program
  symbols := compilation.symbols.map Symbols.unlined
  code := compilation.code

/-! ### Stages -/

theorem analysed_unlined (parsed : Compilation) : parsed.analysed.unlined =
    parsed.unlined.analysed := by
  have hErrors : parsed.unlined.diagnostics.hasErrors = parsed.diagnostics.hasErrors :=
    parsed.diagnostics.hasErrors_unlined
  unfold analysed
  rw [hErrors]
  split
  · rfl
  · have hCheck : Program.check parsed.unlined.program = _ :=
      Program.check_unlined parsed.program
    have hSymbols : Symbols.ofProgram parsed.unlined.program = _ :=
      Symbols.ofProgram_unlined parsed.program
    rw [hCheck, hSymbols]
    rfl

theorem due_unlined (analysed : Compilation) :
    analysed.unlined.due = analysed.due.map Symbols.unlined := by
  have hErrors : analysed.unlined.diagnostics.hasErrors = analysed.diagnostics.hasErrors :=
    analysed.diagnostics.hasErrors_unlined
  unfold due
  rw [hErrors]
  split
  · rfl
  · rfl

theorem coded_unlined {analysed : Compilation}
    (covered : ∀ symbols, analysed.due = some symbols →
      Program.Covered symbols analysed.program)
    (fileName : String) (codeSink : Except Fault Sink) (traceCode : Bool) :
    analysed.unlined.coded fileName codeSink traceCode =
      (analysed.coded fileName codeSink traceCode).map unlined := by
  unfold coded
  rw [due_unlined]
  cases hDue : analysed.due with
  | none => rfl
  | some symbols =>
    cases codeSink with
    | error fault => rfl
    | ok sink =>
      have hGenerate : Program.generate analysed.unlined.program symbols.unlined traceCode
          fileName sink = _ :=
        Program.generate_unlined (covered symbols hDue) traceCode fileName sink
      simp only [Option.map_some, bind, Except.bind, hGenerate]
      cases analysed.program.generate symbols traceCode fileName sink with
      | mk outcome code =>
        cases outcome with
        | ok _ => rfl
        | error fault => rfl

end Compilation

theorem lexicalErrors_unlined (tokens : List Token) :
    Compile.lexicalErrors (tokens.map Token.unlined) =
      Diagnostics.unlined (Compile.lexicalErrors tokens) := by
  simp only [Compile.lexicalErrors, Diagnostics.unlined, List.map_toArray, List.filter_map,
    List.map_map]
  rfl

/-! ### Sources with the same tokens -/

theorem Spells.unlined {stream stream' : Nat → Token}
    (alike : ∀ i, (stream i).unlined = (stream' i).unlined) {i j : Nat} {a b : List Token}
    (ha : Spells stream i a j) (hb : Spells stream' i b j) :
    a.map Token.unlined = b.map Token.unlined := by
  induction a generalizing i b with
  | nil =>
    have hLength := hb.eq_add
    have hNil : i = j := ha
    have : b = [] := List.length_eq_zero_iff.mp (by omega)
    rw [this]
  | cons token a ih =>
    cases b with
    | nil =>
      have hLength := Spells.eq_add ha
      have hNil : i = j := hb
      rw [List.length_cons] at hLength
      omega
    | cons token' b =>
      obtain ⟨rfl, ha⟩ := ha
      obtain ⟨rfl, hb⟩ := hb
      rw [List.map_cons, List.map_cons, alike i, ih ha hb]

/-- Streams that are the same up to lines end at the same place. -/
theorem Ordinary.unique {stream stream' : Nat → Token}
    (alike : ∀ i, (stream i).unlined = (stream' i).unlined) {k k' : Nat}
    (ordinary : Ordinary stream k) (ordinary' : Ordinary stream' k') : k = k' := by
  have hKind : ∀ i, (stream i).kind = (stream' i).kind := fun i =>
    (Token.eq_of_unlined (alike i)).1
  refine Nat.le_antisymm ((ordinary.ends k').mp ?_) ((ordinary'.ends k).mp ?_)
  · rw [hKind]
    exact (ordinary'.ends k').mpr (Nat.le_refl k')
  · rw [← hKind]
    exact (ordinary.ends k).mpr (Nat.le_refl k)

/-- Where code is due, the program has code. -/
theorem covered_due {tree : Program} {found : Diagnostics}
    (intact : found = #[] → Program.Intact tree) (symbols : Symbols)
    (hDue : (Compilation.analysed { diagnostics := found, program := tree }).due =
      some symbols) :
    Program.Covered symbols
      (Compilation.analysed { diagnostics := found, program := tree }).program := by
  rcases @due_cases tree found _ rfl with ⟨-, hNone⟩ | ⟨hFound, -, hProgram, -, hSome⟩
  · rw [hNone] at hDue
    cases hDue
  · rw [hSome] at hDue
    rw [hProgram, ← Option.some.inj hDue]
    exact Program.covered_check_of_intact (intact hFound)

namespace Source

open Scanner

variable {source source' : Source} {bytes bytes' : List UInt8}

theorem tokens_alike (same : SameTokens bytes bytes') (of : source.Of (.ofBytes bytes))
    (of' : source'.Of (.ofBytes bytes')) :
    source.tokens.map (List.map Token.unlined) = source'.tokens.map (List.map Token.unlined) := by
  have alike := upcoming_of_sameTokens same
  have quiet := quiet_start bytes
  have quiet' := quiet_start bytes'
  obtain ⟨k, hk, ordinary⟩ := ordinary_upcoming quiet
  obtain ⟨k', hk', ordinary'⟩ := ordinary_upcoming quiet'
  obtain rfl := ordinary.unique alike ordinary'
  obtain ⟨tokens, hSpells, hDrain⟩ := @drain_run _ quiet _ ordinary 0 (start bytes).tokenBound
    (Nat.zero_le k) (by unfold tokenBound; omega)
  obtain ⟨tokens', hSpells', hDrain'⟩ := @drain_run _ quiet' _ ordinary' 0
    (start bytes').tokenBound (Nat.zero_le k) (by unfold tokenBound; omega)
  rw [Compile.outcome_of_scanning (of.scan {}) hDrain,
    Compile.outcome_of_scanning (of'.scan {}) hDrain']
  simp only [Except.map, List.map_append, List.map_cons, List.map_nil,
    hSpells.unlined alike hSpells', alike k]

theorem parsed_alike (same : SameTokens bytes bytes') (of : source.Of (.ofBytes bytes))
    (of' : source'.Of (.ofBytes bytes')) :
    ∃ tree found tree' found', source.parsed = .ok (tree, found) ∧
      source'.parsed = .ok (tree', found') ∧ Program.unlined tree = Program.unlined tree' ∧
      found.unlined = found'.unlined ∧ (found = #[] → Program.Intact tree) ∧
      (found' = #[] → Program.Intact tree') := by
  have alike := upcoming_of_sameTokens same
  obtain ⟨tree, found, j, hServe, hParsed, intact⟩ := serve_ofBytes of
  obtain ⟨tree', found', j', hServe', hParsed', intact'⟩ := serve_ofBytes of'
  refine ⟨tree, found, tree', found', hParsed, hParsed', ?_⟩
  -- the parser with the lower bound leads
  rcases Nat.le_total ((start bytes).tokenBound + 1) ((start bytes').tokenBound + 1) with le | le
  · obtain ⟨y, hServed, hTree, hFound, -⟩ := (Parser.follows_parse le).serve alike hServe
    obtain ⟨rfl, -⟩ := Prod.mk.inj (Except.ok.inj (hServed.symm.trans hServe'))
    exact ⟨hTree, hFound, intact, intact'⟩
  · obtain ⟨y, hServed, hTree, hFound, -⟩ :=
      (Parser.follows_parse le).serve (fun i => (alike i).symm) hServe'
    obtain ⟨rfl, -⟩ := Prod.mk.inj (Except.ok.inj (hServed.symm.trans hServe))
    exact ⟨hTree.symm, hFound.symm, intact, intact'⟩

/-- **Sources with the same tokens are compiled alike**, stage by stage. -/
theorem outcome_alike (same : SameTokens bytes bytes') (of : source.Of (.ofBytes bytes))
    (of' : source'.Of (.ofBytes bytes')) (fileName : String) (codeSink : Except Fault Sink)
    (options : Options) :
    (source.outcome fileName codeSink options).map Compilation.unlined =
        (source'.outcome fileName codeSink options).map Compilation.unlined ∧
      source.opens options.stopAfter = source'.opens options.stopAfter := by
  obtain ⟨tokens, hTokens⟩ := tokens_ofBytes of
  obtain ⟨tokens', hTokens'⟩ := tokens_ofBytes of'
  obtain ⟨tree, found, tree', found', hParsed, hParsed', hTree, hFound, intact, intact'⟩ :=
    parsed_alike same of of'
  let parsed : Compilation := { diagnostics := found, program := tree }
  let parsed' : Compilation := { diagnostics := found', program := tree' }
  have hSame : parsed.unlined = parsed'.unlined := by
    simp only [parsed, parsed', Compilation.unlined, hTree, hFound]
  have hAnalysed : parsed.analysed.unlined = parsed'.analysed.unlined := by
    rw [Compilation.analysed_unlined, hSame, ← Compilation.analysed_unlined]
  cases last : options.stopAfter with
  | scan =>
    refine ⟨?_, rfl⟩
    have alike := tokens_alike same of of'
    rw [hTokens, hTokens'] at alike
    have hErrors : Diagnostics.unlined (Compile.lexicalErrors tokens) =
        Diagnostics.unlined (Compile.lexicalErrors tokens') := by
      rw [← lexicalErrors_unlined, Except.ok.inj alike, lexicalErrors_unlined]
    rw [outcome_of_scan _ _ last hTokens, outcome_of_scan _ _ last hTokens']
    simp only [Except.map, Compilation.unlined, hErrors]
  | parse =>
    refine ⟨?_, rfl⟩
    rw [outcome_of_parse _ _ last hParsed, outcome_of_parse _ _ last hParsed']
    exact congrArg Except.ok hSame
  | analyze =>
    refine ⟨?_, rfl⟩
    rw [outcome_of_analyze _ _ last hParsed, outcome_of_analyze _ _ last hParsed']
    exact congrArg Except.ok hAnalysed
  | code =>
    rw [outcome_of_code _ _ last hParsed, outcome_of_code _ _ last hParsed',
      opens_code hParsed, opens_code hParsed']
    constructor
    · rw [← Compilation.coded_unlined (covered_due intact),
        ← Compilation.coded_unlined (covered_due intact')]
      exact congrArg (·.coded fileName codeSink options.traceCode) hAnalysed
    · have hDue := congrArg (·.due.isSome) hAnalysed
      simp only [Compilation.due_unlined, Option.isSome_map] at hDue
      exact hDue

end Source

/-! ### Compilations -/

/-- Without its switches, nothing is listed. -/
theorem Source.listing_silent {source : Source} {feed : Feed} (of : source.Of feed)
    (traceCode : Bool) (stage last : Stage) :
    source.listing { traceCode, stopAfter := last } stage = "" := by
  have hTree : source.tell (Compilation.treeText { traceCode, stopAfter := last }) = "" := by
    unfold tell
    split <;> rfl
  have hAnalysis :
      source.tell (Compilation.analysisText { traceCode, stopAfter := last }) = "" := by
    unfold tell
    split
    · exact ite_self ""
    · rfl
  have hRead : source.readText { traceCode, stopAfter := last } = "" := by
    rw [readText, hTree, of.parseSilent]
    rfl
  cases stage with
  | scan => exact of.scanSilent
  | parse => exact hRead
  | analyze | code =>
    rw [listing, hRead, hAnalysis]
    rfl

theorem Compile.compile_silent {source : Source} {feed : Feed} (of : source.Of feed)
    (fileName : String) (codeSink : Except Fault Sink) (traceCode : Bool) (stage : Stage)
    (session : Session) :
    compile feed fileName codeSink { traceCode, stopAfter := stage } session =
      ending (source.outcome fileName codeSink { traceCode, stopAfter := stage })
        ⟨session.listing, session.opened || source.opens stage⟩ := by
  refine (goes_compile of fileName codeSink).fits ?_
  rw [source.listing_silent of]
  exact Sink.write_empty session.listing

theorem compile_alike {bytes bytes' : List UInt8} (same : Scanner.SameTokens bytes bytes')
    (fileName : String) (codeSink : Except Fault Sink) (traceCode : Bool) (stage : Stage)
    (session : Session) :
    ∃ outcome outcome' after,
      compile (.ofBytes bytes) fileName codeSink { traceCode, stopAfter := stage } session =
        ending outcome after ∧
      compile (.ofBytes bytes') fileName codeSink { traceCode, stopAfter := stage } session =
        ending outcome' after ∧
      outcome.map Compilation.unlined = outcome'.map Compilation.unlined := by
  obtain ⟨source, of⟩ := exists_source (.ofBytes bytes)
  obtain ⟨source', of'⟩ := exists_source (.ofBytes bytes')
  obtain ⟨alike, hOpens⟩ := Source.outcome_alike same of of' fileName codeSink
    { traceCode, stopAfter := stage }
  refine ⟨_, _, _, Compile.compile_silent of fileName codeSink traceCode stage session, ?_, alike⟩
  rw [Compile.compile_silent of', ← hOpens]

/-- **Layout does not matter.**  If two sources have the same tokens up to lines, then up to every
stage their compilations end alike: with the same fault, or with the same tree, symbols and
diagnostics up to lines and the same code.  Such sources are made by layout: every source is divided
into parts, which are its tokens, and blanks and closed comments may be put behind any of them. -/
theorem compile_layout :
    (∀ bytes bytes', Scanner.SameTokens bytes bytes' →
      ∀ fileName codeSink traceCode stage session, ∃ outcome outcome' after,
        compile (.ofBytes bytes) fileName codeSink { traceCode, stopAfter := stage } session =
          ending outcome after ∧
        compile (.ofBytes bytes') fileName codeSink { traceCode, stopAfter := stage } session =
          ending outcome' after ∧
        outcome.map Compilation.unlined = outcome'.map Compilation.unlined) ∧
    ∀ bytes, ∃ parts last, Divides [] parts last bytes ∧
      Scanner.shapes bytes =
        List.map Except.ok (parts.map (Part.token · 0) ++ [(⟨.endOfFile, "", 0⟩ : Token)]) ∧
      ∀ first rest layout, parts = first ++ rest → Gap layout →
        ∃ back, bytes = (first.flatMap fun part => part.gap ++ part.bytes) ++ back ∧
          Scanner.SameTokens bytes
            ((first.flatMap fun part => part.gap ++ part.bytes) ++ (layout ++ back)) := by
  refine ⟨fun _ _ same => compile_alike same, fun bytes => ?_⟩
  obtain ⟨parts, last, -, divides, -⟩ := Scanner.calls_division (Scanner.quiet_start bytes)
    (Scanner.holds_ofBytes bytes {} {}) (parted_nil bytes)
  refine ⟨parts, last, divides, Scanner.shapes_eq divides, ?_⟩
  rintro first rest layout rfl gaps
  exact Scanner.sameTokens_insert divides gaps

/-- The bytes of `write 1`. -/
def plainSource : List UInt8 :=
  [119, 114, 105, 116, 101, 32, 49]

/-- The same with a comment over two lines behind `write`. -/
def spreadSource : List UInt8 :=
  [119, 114, 105, 116, 101] ++ ([123, 10, 125] ++ [32, 49])

/-- Both are compiled alike. -/
theorem compile_layout_spread :
    Scanner.SameTokens plainSource spreadSource ∧ ∃ outcome outcome' after,
      compile (.ofBytes plainSource) "one.tm" (.ok {}) {} {} = ending outcome after ∧
      compile (.ofBytes spreadSource) "one.tm" (.ok {}) {} {} = ending outcome' after ∧
      outcome.map Compilation.unlined = outcome'.map Compilation.unlined := by
  have same : Scanner.SameTokens plainSource spreadSource := by
    unfold Scanner.SameTokens
    decide +kernel
  exact ⟨same, compile_layout.1 plainSource spreadSource same "one.tm" (.ok {}) false .code {}⟩

end Tiny
