import Mathlib
import Tiny.Compilation
import Tiny.Proofs.Backpatching
import Tiny.Proofs.Erasure
import Tiny.Proofs.Occurrences
import Tiny.Proofs.Recognition

/-!
# Compilation comes to its end

A compilation reports what is wrong with a program; it is not stopped by it.  As long as the source
can be read, the listing and the code can be written and the branches of the code are in range, no
stage meets a fault.

* `covered_of_intact`: a tree without malformed parts has code, if the names in it have locations;
  `covered_check_of_intact`: in its symbol table they have.
* `drain_quiet`, `program_quiet`: scanning and parsing give a result, and a program for which
  nothing was reported is intact.
* `Compile.Completes`: work that meets no fault; one lemma for each stage.
* `compile_completes`: compilation meets no fault.
-/

namespace Tiny

/-! ### Trees that have code -/

namespace Symbols

/-- Every name has a location. -/
def Locates (symbols : Symbols) (names : List (String × Nat)) : Prop :=
  ∀ name ∈ names.map Prod.fst, ∃ location, symbols.location? name = some location

variable {symbols : Symbols} {a b : List (String × Nat)}

theorem locates_append : symbols.Locates (a ++ b) ↔ symbols.Locates a ∧ symbols.Locates b := by
  simp only [Locates, List.map_append, List.forall_mem_append]

theorem locates_cons {name : String × Nat} :
    symbols.Locates (name :: a) ↔
      (∃ location, symbols.location? name.1 = some location) ∧ symbols.Locates a := by
  simp only [Locates, List.map_cons, List.forall_mem_cons]

theorem locates_ofProgram (p : Program) : (ofProgram p).Locates (Program.occurrences p) :=
  fun _ member => location?_ofProgram.mpr member

end Symbols

theorem Expression.covered_of_intact {symbols : Symbols} {e : Expression} (intact : e.Intact)
    (located : symbols.Locates e.occurrences) : e.Covered symbols := by
  induction e with
  | binary op lhs rhs line type ihl ihr =>
    obtain ⟨hl, hr, -⟩ := intact
    obtain ⟨locatedLeft, locatedRight⟩ := Symbols.locates_append.mp located
    exact ⟨ihl hl locatedLeft, ihr hr locatedRight⟩
  | constant value line type => trivial
  | reference name line type => exact (Symbols.locates_cons.mp located).1
  | malformed line => exact intact

theorem covered_of_intact (symbols : Symbols) :
    (∀ s : Statement, s.Intact → symbols.Locates s.occurrences → s.Covered symbols) ∧
    ∀ ss : List Statement, Program.Intact ss → symbols.Locates (Program.occurrences ss) →
      Program.Covered symbols ss := by
  refine Statement.ind ?_ ?_ ?_ ?_ ?_ ?_ ?_ ?_
  · rintro test yes line ih ⟨hTest, -, hYes⟩ located
    obtain ⟨locatedTest, locatedYes⟩ := Symbols.locates_append.mp located
    exact ⟨test.covered_of_intact hTest locatedTest, ih hYes locatedYes⟩
  · rintro test yes no line ihYes ihNo ⟨hTest, -, hYes, -, hNo⟩ located
    obtain ⟨locatedTest, located⟩ := Symbols.locates_append.mp located
    obtain ⟨locatedYes, locatedNo⟩ := Symbols.locates_append.mp located
    exact ⟨test.covered_of_intact hTest locatedTest, ihYes hYes locatedYes, ihNo hNo locatedNo⟩
  · rintro body test line ih ⟨-, hBody, hTest⟩ located
    obtain ⟨locatedBody, locatedTest⟩ := Symbols.locates_append.mp located
    exact ⟨ih hBody locatedBody, test.covered_of_intact hTest locatedTest⟩
  · intro name value line hValue located
    obtain ⟨locatedName, locatedValue⟩ := Symbols.locates_cons.mp located
    exact ⟨value.covered_of_intact hValue locatedValue, locatedName⟩
  · intro name line _ located
    exact (Symbols.locates_cons.mp located).1
  · intro value line hValue located
    exact value.covered_of_intact hValue located
  · intro _ _
    trivial
  · rintro first rest ihFirst ihRest ⟨hFirst, hRest⟩ located
    obtain ⟨locatedFirst, locatedRest⟩ := Symbols.locates_append.mp located
    exact ⟨ihFirst hFirst locatedFirst, ihRest hRest locatedRest⟩

/-- A program without malformed parts has code, once its types are settled: every name in it is in
its symbol table. -/
theorem Program.covered_check_of_intact {p : Program} (intact : Program.Intact p) :
    Program.Covered (Symbols.ofProgram p) p.check.1 := by
  rw [Program.covered_check]
  exact (covered_of_intact _).2 p intact (Symbols.locates_ofProgram p)

/-! ### Scanning and parsing -/

namespace Scanner

variable {scanner : Scanner}

theorem drain_quiet (quiet : scanner.Quiet) :
    ∃ tokens after, drain scanner.tokenBound scanner = .ok tokens after ∧ after.Quiet := by
  obtain ⟨tokens, -, -, -, -, hDrain⟩ := exists_tokens quiet
  exact ⟨_, _, hDrain, quiet_later quiet (tokens.length + 1)⟩

/-- A quiet scanner gives a program, which is intact unless something was reported. -/
theorem program_quiet (quiet : scanner.Quiet) :
    ∃ tree found after, program scanner = .ok (tree, found) after ∧ after.Quiet ∧
      (found = #[] → Program.Intact tree) := by
  obtain ⟨k, hk, ordinary⟩ := ordinary_upcoming quiet
  obtain ⟨tree, found, j, hServe, hIff, hTree⟩ := @Parser.serve_parse_iff _ _
    (scanner.tokenBound + 1) ordinary (by unfold tokenBound; omega)
  refine ⟨tree, found, _, runOn_of_serve quiet hServe, quiet_later quiet j, fun hFound => ?_⟩
  obtain ⟨d, hSpells⟩ := hIff.mp hFound
  rw [hTree d hSpells]
  exact d.intact_tree

end Scanner

/-! ### Stages -/

namespace Compile

variable {α β : Type} {session : Session} {D : α → Prop} {E : β → Prop}

/-- Work that meets no fault and leaves a listing without a limit.  `D` holds of what it gives. -/
def Completes (work : Compile α) (session : Session) (D : α → Prop) : Prop :=
  ∃ x session', work session = .ok x session' ∧ session'.listing.limit = none ∧ D x

theorem completes_pure {x : α} (unlimited : session.listing.limit = none) (h : D x) :
    Completes (pure x) session D :=
  ⟨x, session, rfl, unlimited, h⟩

theorem Completes.bind {work : Compile α} {f : α → Compile β} (h : Completes work session D)
    (hf : ∀ x session', session'.listing.limit = none → D x → Completes (f x) session' E) :
    Completes (work >>= f) session E := by
  obtain ⟨x, session', hWork, unlimited, hx⟩ := h
  obtain ⟨y, session'', hNext, h⟩ := hf x session' unlimited hx
  exact ⟨y, session'', (bind_of_ok hWork).trans hNext, h⟩

theorem completes_trace (unlimited : session.listing.limit = none) (switch : Bool)
    (text : String) : Completes (trace switch text) session fun _ => True := by
  cases switch with
  | false => exact completes_pure unlimited trivial
  | true =>
    refine ⟨(), { session with listing := session.listing.add text }, ?_, unlimited, trivial⟩
    simp only [trace, write, if_pos, Focus.on, listingPart, Sink.write_of_unlimited unlimited]

theorem completes_scanning {feed : Feed} {options : Options} {work : Scan α} {x : α}
    {after : Scanner} (h : work { feed, listing := session.listing, options } = .ok x after)
    (quiet : after.Quiet) : Completes (scanning feed options work) session (· = x) := by
  refine ⟨x, { session with listing := after.listing }, ?_, quiet.unlimited, rfl⟩
  rw [scanning, h]

section

variable {feed : Feed} (unfailing : feed.Unfailing) (unlimited : session.listing.limit = none)
  (options : Options)

include unfailing unlimited

theorem completes_scan : Completes (scan feed options) session fun _ => True := by
  obtain ⟨tokens, after, hDrain, quiet⟩ := @Scanner.drain_quiet
    { feed, listing := session.listing, options } ⟨unfailing, unlimited⟩
  refine (completes_scanning (x := tokens) hDrain quiet).bind fun _ session' unlimited' _ => ?_
  exact completes_pure unlimited' trivial

theorem completes_parse : Completes (parse feed options) session fun result =>
    (∃ after, Scanner.program { feed, listing := session.listing, options } = .ok result after) ∧
      (result.2 = #[] → Program.Intact result.1) := by
  obtain ⟨tree, found, after, hProgram, quiet, intact⟩ := @Scanner.program_quiet
    { feed, listing := session.listing, options } ⟨unfailing, unlimited⟩
  refine (completes_scanning hProgram quiet).bind fun result session' unlimited' hResult => ?_
  subst hResult
  refine (completes_trace unlimited' _ _).bind fun _ session'' unlimited'' _ => ?_
  exact completes_pure unlimited'' ⟨⟨after, hProgram⟩, intact⟩

end

theorem completes_analyze (unlimited : session.listing.limit = none) (tree : Program)
    (options : Options) : Completes (analyze tree options) session fun result =>
      result = (tree.check.1, Symbols.ofProgram tree, tree.check.2) := by
  refine (completes_trace unlimited _ _).bind fun _ session₁ unlimited₁ _ => ?_
  refine (completes_trace unlimited₁ _ _).bind fun _ session₂ unlimited₂ _ => ?_
  refine (completes_trace unlimited₂ _ _).bind fun _ session₃ unlimited₃ _ => ?_
  exact completes_pure unlimited₃ rfl

theorem completes_generate (unlimited : session.listing.limit = none) {p : Program}
    {symbols : Symbols} (covered : Program.Covered symbols p)
    (small : (Assembly.program symbols p).length < 2147483648) {sink : Sink}
    (hSink : sink.limit = none) (fileName : String) (options : Options) :
    Completes (generate p symbols fileName (.ok sink) options) session fun _ => True := by
  obtain ⟨entries, hGenerate, -⟩ := Code.generate_run covered small hSink options.traceCode fileName
  have hOpened : Completes (modify fun session => { session with opened := true }) session
      fun _ => True := ⟨(), { session with opened := true }, rfl, unlimited, trivial⟩
  refine hOpened.bind fun _ session' unlimited' _ => ?_
  simp only [hGenerate]
  exact completes_pure unlimited' trivial

end Compile

/-! ### Compilations -/

/-- **Compilation meets no fault**, whatever the source.  In the tree of a program for which nothing
was reported, no part is malformed, and every name for which its code needs a location is in the
symbol table. -/
theorem compile_completes {bytes : List UInt8} {options : Options} {session : Session}
    {codeSink : Sink} (unlimited : session.listing.limit = none)
    (hCode : codeSink.limit = none)
    (small : ∀ tree scanner,
      Scanner.program { feed := .ofBytes bytes, listing := session.listing, options } =
        .ok (tree, #[]) scanner →
      tree.check.2 = #[] → options.stopAfter = .code →
      (Assembly.program (Symbols.ofProgram tree) tree).length < 2147483648)
    (fileName : String) :
    (∃ compilation session', compile (.ofBytes bytes) fileName (.ok codeSink) options session =
      .ok compilation session') ∧
    ∀ tree scanner,
      Scanner.program { feed := .ofBytes bytes, listing := session.listing, options } =
        .ok (tree, #[]) scanner →
      Program.Intact tree ∧ Program.Covered (Symbols.ofProgram tree) tree.check.1 := by
  have unfailing := Feed.unfailing_ofBytes bytes
  constructor
  · suffices h : Compile.Completes (compile (.ofBytes bytes) fileName (.ok codeSink) options)
        session fun _ => True by
      obtain ⟨compilation, session', h, -⟩ := h
      exact ⟨compilation, session', h⟩
    unfold compile
    split
    · exact Compile.completes_scan unfailing unlimited options
    rename_i hScan
    refine (Compile.completes_parse unfailing unlimited options).bind ?_
    rintro ⟨tree, found⟩ session₁ unlimited₁ ⟨⟨after, hProgram⟩, intact⟩
    simp only
    split
    · exact Compile.completes_pure unlimited₁ trivial
    rename_i hParse
    obtain ⟨hFound, hParse⟩ := not_or.mp hParse
    obtain rfl := Diagnostics.eq_empty_of_hasErrors hFound
    refine (Compile.completes_analyze unlimited₁ tree options).bind ?_
    rintro _ session₂ unlimited₂ rfl
    simp only
    split
    · exact Compile.completes_pure unlimited₂ trivial
    rename_i hAnalyze
    obtain ⟨hTypes, hAnalyze⟩ := not_or.mp hAnalyze
    have hStage : options.stopAfter = .code := by
      cases h : options.stopAfter <;> simp_all
    have covered := Program.covered_check_of_intact (intact rfl)
    have hSmall := small tree after hProgram (Diagnostics.eq_empty_of_hasErrors hTypes) hStage
    rw [← Program.assembly_check] at hSmall
    refine (Compile.completes_generate unlimited₂ covered hSmall hCode fileName options).bind ?_
    intro _ session₃ unlimited₃ _
    exact Compile.completes_pure unlimited₃ trivial
  · intro tree scanner hTree
    obtain ⟨tree', found, after, hProgram, -, intact⟩ := @Scanner.program_quiet
      { feed := .ofBytes bytes, listing := session.listing, options } ⟨unfailing, unlimited⟩
    obtain ⟨hResult, -⟩ := ok_inj (hTree.symm.trans hProgram)
    obtain ⟨rfl, rfl⟩ := Prod.mk.inj hResult
    exact ⟨intact rfl, Program.covered_check_of_intact (intact rfl)⟩

/-- The bytes of `if 0<n then n:=0 end`. -/
def cappedSource : List UInt8 :=
  [105, 102, 32, 48, 60, 110, 32, 116, 104, 101, 110, 32, 110, 58, 61, 48, 32, 101, 110, 100]

/-- The program in these bytes. -/
def cappedTree : Program :=
  [.ifThen
    (.binary .less (.constant 0 1 .unresolved) (.reference "n" 1 .unresolved) 1 .unresolved)
    [.assign "n" (.constant 0 1 .unresolved) 1] 1]

/-- This program is compiled. -/
theorem compile_completes_capped :
    (∃ compilation session', compile (.ofBytes cappedSource) "capped.tny" (.ok {}) {} {} =
      .ok compilation session') ∧
    Program.Intact cappedTree ∧
    Program.Covered (Symbols.ofProgram cappedTree) cappedTree.check.1 := by
  obtain ⟨scanner, hParse⟩ : ∃ scanner, Scanner.program
      { feed := .ofBytes cappedSource, listing := {}, options := {} } =
        .ok (cappedTree, #[]) scanner := ⟨_, by cbv⟩
  have small : ∀ tree scanner, Scanner.program
      { feed := .ofBytes cappedSource, listing := {}, options := {} } =
        .ok (tree, #[]) scanner →
      tree.check.2 = #[] → Options.stopAfter {} = .code →
      (Assembly.program (Symbols.ofProgram tree) tree).length < 2147483648 := by
    intro tree scanner' h _ _
    obtain ⟨hResult, -⟩ := ok_inj (hParse.symm.trans h)
    obtain ⟨rfl, -⟩ := Prod.mk.inj hResult
    decide
  obtain ⟨completes, trees⟩ := @compile_completes _ _ {} {} rfl rfl small "capped.tny"
  exact ⟨completes, trees cappedTree scanner hParse⟩

end Tiny
