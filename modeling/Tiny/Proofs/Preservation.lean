import Mathlib
import Tiny.Compilation
import Tiny.Proofs.Erasure
import Tiny.Proofs.Simulation

/-!
# Compilation preserves meaning

The code of a program that was compiled, if it fits into the machine, is loaded, and the machine
does with any input what the program means: it gives the output and leaves every variable at its
location, it fails as the program fails, or it goes on for ever.

* `run_of_goes_halted`, `run_of_goes_error`, `run_of_lasts`: how a run of the machine ends.
* `realizes_of_loaded`: a machine that was loaded with the code of a program does what it means.
* `compile_preserves`: so does the machine for code that a compilation gives.
-/

namespace Tiny

namespace Machine

open Tick

variable {machine : Machine} {input : List Int32}

/-! ### Runs -/

theorem run_of_goes_halted {n : Nat} {run after : Run} (h : Goes n { machine, input } run)
    (hStep : step run = .ok .halted after) {limit : Nat} (hLimit : n + 1 ≤ limit) :
    machine.run input limit = (.ok after.output, after.machine) := by
  obtain ⟨left, rfl⟩ : ∃ left, limit = n + (left + 1) := ⟨limit - (n + 1), by omega⟩
  have hSteps : steps (n + (left + 1)) (left + 1) run = .ok () after := by
    rw [steps, bind_of_ok hStep]
    rfl
  rw [Machine.run, steps_of_goes h, hSteps]

theorem run_of_goes_error {n : Nat} {run after : Run} {fault : MachineFault}
    (h : Goes n { machine, input } run) (hStep : step run = .error fault after) {limit : Nat}
    (hLimit : n + 1 ≤ limit) : machine.run input limit = (.error fault, after.machine) := by
  obtain ⟨left, rfl⟩ : ∃ left, limit = n + (left + 1) := ⟨limit - (n + 1), by omega⟩
  have hSteps : steps (n + (left + 1)) (left + 1) run = .error fault after := by
    rw [steps]
    show EStateM.bind step _ run = _
    rw [EStateM.bind, hStep]
  rw [Machine.run, steps_of_goes h, hSteps]

theorem run_of_lasts {n limit : Nat} {run : Run} (h : Goes n { machine, input } run)
    (hLimit : limit ≤ n) : (machine.run input limit).1 = .error (.stepLimit limit) := by
  obtain ⟨stopped, hSteps⟩ := steps_of_goes_lt h limit hLimit
  rw [Machine.run, hSteps]

/-! ### Programs -/

/-- What a program means is what the machine does with its code. -/
structure Realizes (machine : Machine) (symbols : Symbols) (p : Program) (input : List Int32) :
    Prop where
  /-- A program that ends gives its output and leaves its variables at their locations. -/
  ends : ∀ state, Program.Executes p (.start input) (.ok state) →
    ∃ n, ∀ limit, n ≤ limit → ∃ after, machine.run input limit = (.ok state.output, after) ∧
      ∀ (name : String) (l : Nat), symbols.location? name = some l →
        after.data[l]? = some (state.store name)
  fails : ∀ failure, Program.Executes p (.start input) (.error failure) →
    ∃ n location, ∀ limit, n ≤ limit →
      (machine.run input limit).1 = .error (failure.fault location)
  /-- A program without an outcome exceeds every limit. -/
  lasts : (¬ ∃ outcome, Program.Executes p (.start input) outcome) →
    ∀ limit, (machine.run input limit).1 = .error (.stepLimit limit)

variable {symbols : Symbols} {p : Program}

theorem matches_cleared (room : symbols.size ≤ 1024) (input : List Int32) :
    Matches symbols (.start input) (cleared input) := by
  refine ⟨?_, rfl, rfl⟩
  intro name l hl
  have hSmall : l < 1024 := Nat.lt_of_lt_of_le (Symbols.location?_lt_size hl) room
  show (Vector.replicate 1024 (0 : Int32))[l]? = some 0
  rw [Vector.getElem?_eq_getElem hSmall, Vector.getElem_replicate]

/-- **The code of a program does what the program means.** -/
theorem realizes_of_loaded (loaded : machine.Loaded (Assembly.program symbols p))
    (covered : Program.Covered symbols p) (small : (Assembly.program symbols p).length ≤ 1024)
    (room : symbols.size + Program.temporaries p ≤ 1024) (input : List Int32) :
    machine.Realizes symbols p input := by
  have hLength : (Assembly.program symbols p).length =
      2 + (Assembly.statements symbols p).length + 1 := by
    simp only [Assembly.program, Assembly.opening, List.length_append, List.length_cons,
      List.length_nil]
    omega
  have hOpening := goes_cleared loaded input
  have at_ : CodeAt machine.code 2 (Assembly.statements symbols p ++ [Instruction.halt]) := by
    intro j i hj
    refine loaded.holds (2 + j) i ?_
    rw [Assembly.program, List.getElem?_append_right (show Assembly.opening.length ≤ 2 + j by
      show 2 ≤ 2 + j; omega), show 2 + j - Assembly.opening.length = j by
      show 2 + j - 2 = j; omega]
    exact hj
  have inside : 2 + (Assembly.statements symbols p).length < 1024 := by omega
  have shown := matches_cleared (show symbols.size ≤ 1024 by omega) input
  constructor
  · intro state h
    obtain ⟨n, c, hGoes, hPc, shown'⟩ :=
      results_statements h (c := cleared input) covered at_.left inside room shown
    have hHalt := step_halt (c := c) (hPc ▸ at_.right.head)
    refine ⟨2 + n + 1, fun limit hLimit =>
      ⟨(c.next.run machine.code).machine, ?_, shown'.shows⟩⟩
    rw [run_of_goes_halted (hOpening.trans hGoes) hHalt hLimit, ← shown'.output]
    rfl
  · intro failure h
    obtain ⟨n, c, hGoes, hStep⟩ :=
      results_statements h (c := cleared input) covered at_.left inside room shown
    refine ⟨2 + n + 1, .ofNat c.pc, fun limit hLimit => ?_⟩
    rw [run_of_goes_error (hOpening.trans hGoes) hStep hLimit]
  · intro hNone limit
    rcases (outcome_or_lasts limit).2 p (.start input) (cleared input) covered at_.left inside room
      shown with hOutcome | ⟨m, after, hm, hGoes⟩
    · exact absurd hOutcome hNone
    · exact run_of_lasts (hOpening.trans hGoes) (by omega)

end Machine

/-! ### Compilations -/

namespace Compile

theorem parse_ok {feed : Feed} {options : Options} {session session' : Session} {tree : Program}
    {found : Diagnostics} (h : parse feed options session = .ok (tree, found) session') :
    ∃ scanner, Scanner.program { feed, listing := session.listing, options } =
      .ok (tree, found) scanner := by
  obtain ⟨⟨tree', found'⟩, middle, hScan, h⟩ := bind_eq_ok h
  obtain ⟨_, _, _, h⟩ := bind_eq_ok h
  obtain ⟨hResult, -⟩ := ok_inj h
  rw [hResult] at hScan
  unfold scanning at hScan
  cases hRun : Scanner.program { feed, listing := session.listing, options } with
  | ok result' scanner =>
    rw [hRun] at hScan
    obtain ⟨rfl, -⟩ := ok_inj hScan
    exact ⟨scanner, rfl⟩
  | error fault scanner =>
    rw [hRun] at hScan
    cases hScan

theorem analyze_ok {tree checked : Program} {options : Options} {session session' : Session}
    {symbols : Symbols} {found : Diagnostics}
    (h : analyze tree options session = .ok (checked, symbols, found) session') :
    checked = tree.check.1 ∧ symbols = Symbols.ofProgram tree := by
  obtain ⟨_, _, _, h⟩ := bind_eq_ok h
  obtain ⟨_, _, _, h⟩ := bind_eq_ok h
  obtain ⟨_, _, _, h⟩ := bind_eq_ok h
  obtain ⟨hResult, -⟩ := ok_inj h
  obtain ⟨hChecked, hRest⟩ := Prod.mk.inj hResult
  exact ⟨hChecked.symm, (Prod.mk.inj hRest).1.symm⟩

theorem generate_ok {p : Program} {symbols : Symbols} {fileName : String} {sink code : Sink}
    {options : Options} {session session' : Session}
    (h : generate p symbols fileName (.ok sink) options session = .ok code session') :
    p.generate symbols options.traceCode fileName sink = (.ok (), code) := by
  obtain ⟨_, middle, _, h⟩ := bind_eq_ok h
  cases hRun : p.generate symbols options.traceCode fileName sink with
  | mk result written =>
    simp only [hRun] at h
    cases result with
    | ok _ =>
      obtain ⟨rfl, -⟩ := ok_inj h
      rfl
    | error fault => cases h

end Compile

/-- A compilation that gives code has parsed a program without diagnostics, and the code is that of
the program with its types settled. -/
theorem compile_code {feed : Feed} {fileName : String} {codeSink : Sink} {options : Options}
    {session session' : Session} {compilation : Compilation} {code : Sink}
    (h : compile feed fileName (.ok codeSink) options session = .ok compilation session')
    (hCode : compilation.code = some code) :
    ∃ tree scanner,
      Scanner.program { feed, listing := session.listing, options } = .ok (tree, #[]) scanner ∧
      compilation.symbols = some (Symbols.ofProgram tree) ∧
      tree.check.1.generate (Symbols.ofProgram tree) options.traceCode fileName codeSink =
        (.ok (), code) := by
  unfold compile at h
  split at h
  · -- only scanning was asked for
    obtain ⟨_, _, _, h⟩ := bind_eq_ok h
    obtain ⟨rfl, -⟩ := ok_inj h
    cases hCode
  · obtain ⟨⟨tree, found⟩, session₁, hParse, h⟩ := bind_eq_ok h
    simp only at h
    split at h
    · -- no analysis
      obtain ⟨rfl, -⟩ := ok_inj h
      cases hCode
    · rename_i hClean
      obtain ⟨⟨checked, symbols, violations⟩, session₂, hAnalyze, h⟩ := bind_eq_ok h
      simp only at h
      split at h
      · -- no code
        obtain ⟨rfl, -⟩ := ok_inj h
        cases hCode
      · obtain ⟨written, session₃, hGenerate, h⟩ := bind_eq_ok h
        obtain ⟨rfl, -⟩ := ok_inj h
        obtain rfl : written = code := Option.some.inj hCode
        obtain ⟨scanner, hScan⟩ := Compile.parse_ok hParse
        obtain ⟨rfl, rfl⟩ := Compile.analyze_ok hAnalyze
        obtain rfl := Diagnostics.eq_empty_of_hasErrors (not_or.mp hClean).1
        exact ⟨tree, scanner, hScan, rfl, Compile.generate_ok hGenerate⟩

/-- Without a listing, a program that is parsed and checked without diagnostics is compiled. -/
theorem compile_of_stages {feed : Feed} {fileName : String} {codeSink code : Sink}
    {session : Session} {tree : Program} {scanner : Scanner}
    (hParse : Scanner.program { feed, listing := session.listing, options := {} } =
      .ok (tree, #[]) scanner)
    (hTypes : tree.check.2 = #[])
    (hGenerate : tree.check.1.generate (Symbols.ofProgram tree) false fileName codeSink =
      (.ok (), code)) :
    ∃ session', compile feed fileName (.ok codeSink) {} session =
      .ok { program := tree.check.1, symbols := some (Symbols.ofProgram tree), code := some code }
        session' := by
  have hScan : Compile.parse feed {} session =
      .ok (tree, #[]) { session with listing := scanner.listing } := by
    have hScanning : Compile.scanning feed {} Scanner.program session =
        .ok (tree, #[]) { session with listing := scanner.listing } := by
      rw [Compile.scanning, hParse]
    exact bind_of_ok hScanning
  have hAnalyze : ∀ s, Compile.analyze tree {} s =
      .ok (tree.check.1, Symbols.ofProgram tree, tree.check.2) s := fun s => rfl
  have hCode : ∀ s, Compile.generate tree.check.1 (Symbols.ofProgram tree) fileName (.ok codeSink)
      {} s = .ok code { s with opened := true } := by
    intro s
    have hOpened : (modify fun session => { session with opened := true } : Compile Unit) s =
        .ok () { s with opened := true } := rfl
    rw [Compile.generate, bind_of_ok hOpened]
    simp only [hGenerate]
    rfl
  refine ⟨{ session with listing := scanner.listing, opened := true }, ?_⟩
  rw [compile, if_neg (by decide), bind_of_ok hScan]
  simp only
  rw [if_neg (by decide), bind_of_ok (hAnalyze _), hTypes]
  simp only
  rw [if_neg (by decide), bind_of_ok (hCode _)]
  rfl

/-- **Compilation preserves meaning.**  The code that a compilation gives, if it fits, is loaded,
and the machine does with every input what the program that was parsed means. -/
theorem compile_preserves {feed : Feed} {fileName : String} {options : Options}
    {session session' : Session} {compilation : Compilation} {code : Sink}
    (h : compile feed fileName (.ok {}) options session = .ok compilation session')
    (hCode : compilation.code = some code)
    (plain : options.traceCode = true → '\n' ∉ fileName.toList)
    (fits : Listing.count code.text ≤ 1024) :
    ∃ tree symbols machine,
      (∃ scanner, Scanner.program { feed, listing := session.listing, options } =
        .ok (tree, #[]) scanner) ∧
      compilation.symbols = some symbols ∧ Program.Covered symbols tree ∧
      Machine.load code.text = .ok machine ∧
      ∀ input : List Int32, machine.Realizes symbols tree input := by
  obtain ⟨tree, scanner, hScan, hSymbols, hGenerate⟩ := compile_code h hCode
  obtain ⟨covered, hCount⟩ := Code.count_generate plain hGenerate
  obtain ⟨machine, hLoad, loaded⟩ := Machine.load_generate plain hGenerate fits
  rw [Program.covered_check] at covered
  rw [Program.assembly_check] at hCount loaded
  rw [hCount] at fits
  have hRoom := Assembly.size_add_temporaries_lt tree
  exact ⟨tree, _, machine, ⟨scanner, hScan⟩, hSymbols, covered, hLoad, fun input =>
    Machine.realizes_of_loaded loaded covered fits (by omega) input⟩

/-- The bytes of `read x; write 6/x`. -/
def quotientSource : List UInt8 :=
  [114, 101, 97, 100, 32, 120, 59, 32, 119, 114, 105, 116, 101, 32, 54, 47, 120]

/-- The program in these bytes. -/
def quotientTree : Program :=
  [.read "x" 1,
   .write (.binary .div (.constant 6 1 .unresolved) (.reference "x" 1 .unresolved) 1 .unresolved) 1]

/-- The machine for this program divides by what it reads, or fails. -/
theorem compile_preserves_quotient :
    ∃ compilation session code machine,
      compile (.ofBytes quotientSource) "quotient.tny" (.ok {}) {} {} = .ok compilation session ∧
      compilation.code = some code ∧ Listing.count code.text ≤ 1024 ∧
      Machine.load code.text = .ok machine ∧
      (∃ n, ∀ limit, n ≤ limit → (machine.run [4] limit).1 = .ok #[1]) ∧
      (∃ n location, ∀ limit, n ≤ limit →
        (machine.run [0] limit).1 = .error (.divisionByZero location)) ∧
      ∃ n location, ∀ limit, n ≤ limit →
        (machine.run [] limit).1 = .error (.inputExhausted location) := by
  obtain ⟨scanner, hParse⟩ : ∃ scanner, Scanner.program
      { feed := .ofBytes quotientSource, listing := {}, options := {} } =
        .ok (quotientTree, #[]) scanner := ⟨_, by cbv⟩
  have covered : Program.Covered (Symbols.ofProgram quotientTree) quotientTree.check.1 :=
    ⟨⟨0, rfl⟩, ⟨trivial, ⟨0, rfl⟩⟩, trivial⟩
  obtain ⟨entries, hGenerate, -⟩ := Code.generate_run covered (by decide)
    (show Sink.limit {} = none from rfl) false "quotient.tny"
  have hCount := (Code.count_generate (fun on => absurd on (by decide)) hGenerate).2
  have fits := Nat.le_trans (Nat.le_of_eq hCount) (show 11 ≤ 1024 by decide)
  obtain ⟨session, hCompile⟩ := @compile_of_stages _ _ _ _ {} _ _ hParse rfl hGenerate
  obtain ⟨tree, symbols, machine, ⟨scanner', hTree⟩, -, -, hLoad, realizes⟩ :=
    compile_preserves hCompile rfl (fun on => absurd on (by decide)) fits
  obtain ⟨hTree, -⟩ := ok_inj (hParse.symm.trans hTree)
  obtain rfl : quotientTree = tree := (Prod.mk.inj hTree).1
  have hEnds : Program.Executes quotientTree (.start [4])
      (.ok { store := Store.zero.set "x" 4, input := [], output := #[1] }) :=
    .cons (.read rfl) (.cons (.write (.binary (b := 4) .constant .reference)) .nil)
  have hZero : Program.Executes quotientTree (.start [0]) (.error .divisionByZero) :=
    .cons (.read rfl) (.stops (.writeStops (.binary (b := 0) .constant .reference)))
  have hEmpty : Program.Executes quotientTree (.start []) (.error .inputExhausted) :=
    .stops (.readStops rfl)
  obtain ⟨n, hRun⟩ := (realizes [4]).ends _ hEnds
  refine ⟨_, session, _, machine, hCompile, rfl, fits, hLoad, ⟨n, fun limit hLimit => ?_⟩,
    (realizes [0]).fails _ hZero, (realizes []).fails _ hEmpty⟩
  obtain ⟨after, hAfter, -⟩ := hRun limit hLimit
  rw [hAfter]

end Tiny
