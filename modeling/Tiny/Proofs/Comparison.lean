import Tiny.Proofs.Preservation

/-!
# What comparisons compute

One number is compared with another by the sign of their difference.  The difference wraps around,
so this is the order of the numbers only where the difference is a machine word; where it is not,
the answer is the wrong one.

* `sub_neg_iff`: when the difference of two words is negative.
* `Program.sites`: the expressions inside a program, each with the location of its code.
* `DecidesLess`: what the code of a `<` anywhere in a program leaves in the accumulator.
* `ChoosesLess`: where a program goes on that compares two numbers which it has read.
* `compile_compares`: both hold of the code that a compilation gives.
-/

namespace Tiny

/-! ### Differences -/

/-- The difference of two words is a word. -/
def DifferenceFits (a b : Int32) : Prop :=
  -2147483648 ≤ a.toInt - b.toInt ∧ a.toInt - b.toInt < 2147483648

instance (a b : Int32) : Decidable (DifferenceFits a b) :=
  inferInstanceAs (Decidable (_ ∧ _))

/-- **The sign of a difference is the order of the words if and only if the difference fits.** -/
theorem sub_neg_iff (a b : Int32) : a - b < 0 ↔ (a.toInt < b.toInt ↔ DifferenceFits a b) := by
  have hLow := a.le_toInt
  have hHigh := a.toInt_lt
  have hLow' := b.le_toInt
  have hHigh' := b.toInt_lt
  rw [Int32.lt_iff_toInt_lt, Int32.toInt_sub, Int32.toInt_zero, DifferenceFits]
  by_cases hFits : -2147483648 ≤ a.toInt - b.toInt ∧ a.toInt - b.toInt < 2147483648
  · rw [Int.bmod_eq_of_le (by omega) (by omega)]
    omega
  · rw [Int.bmod_def]
    omega

/-! ### The expressions inside a program -/

/-- An expression inside a program: the location of its code, and how many temporaries are in use
when its code starts. -/
structure Site where
  location : Nat
  depth : Nat
  part : Expression
deriving DecidableEq, Repr

namespace Expression

open Assembly

/-- The expressions inside an expression, itself first. -/
def sites (symbols : Symbols) (depth base : Nat) : Expression → List Site
  | .binary op lhs rhs line type =>
    ⟨base, depth, .binary op lhs rhs line type⟩ ::
      (lhs.sites symbols depth base ++
        rhs.sites symbols (depth + 1) (base + (expression symbols depth lhs).length + 1))
  | e => [⟨base, depth, e⟩]

end Expression

section

open Assembly

mutual

/-- The expressions inside a statement whose code starts at `base`. -/
def Statement.sites (symbols : Symbols) (base : Nat) : Statement → List Site
  | .ifThen test yes _ =>
    test.sites symbols 0 base ++
      Program.sites symbols (base + (expression symbols 0 test).length + 1) yes
  | .ifElse test yes no _ =>
    test.sites symbols 0 base ++
      (Program.sites symbols (base + (expression symbols 0 test).length + 1) yes ++
        Program.sites symbols (base + (expression symbols 0 test).length + 1 +
          (statements symbols yes).length + 1) no)
  | .loop body test _ =>
    Program.sites symbols base body ++
      test.sites symbols 0 (base + (statements symbols body).length)
  | .assign _ value _ => value.sites symbols 0 base
  | .read _ _ => []
  | .write value _ => value.sites symbols 0 base

/-- The expressions inside a sequence of statements whose code starts at `base`. -/
def Program.sites (symbols : Symbols) (base : Nat) : List Statement → List Site
  | [] => []
  | first :: rest =>
    first.sites symbols base ++
      Program.sites symbols (base + (statement symbols first).length) rest

end

end

namespace Site

open Assembly

/-- The expression of a site has its code at its location, if the first location of `code` is
`base`, and needs no more than `t` temporaries. -/
structure Stands (symbols : Symbols) (t base : Nat) (code : List Instruction) (site : Site) :
    Prop where
  split : ∃ before after,
    code = before ++ (expression symbols site.depth site.part ++ after) ∧
      site.location = base + before.length
  covered : site.part.Covered symbols
  room : site.depth + site.part.temporaries ≤ t

variable {symbols : Symbols} {t base : Nat} {code : List Instruction} {site : Site}

theorem Stands.append (h : site.Stands symbols t base code) (more : List Instruction) :
    site.Stands symbols t base (code ++ more) := by
  obtain ⟨⟨before, after, rfl, hLocation⟩, covered, room⟩ := h
  refine ⟨⟨before, after ++ more, ?_, hLocation⟩, covered, room⟩
  simp only [List.append_assoc]

theorem Stands.behind {before : List Instruction}
    (h : site.Stands symbols t (base + before.length) code) :
    site.Stands symbols t base (before ++ code) := by
  obtain ⟨⟨front, after, rfl, hLocation⟩, covered, room⟩ := h
  refine ⟨⟨before ++ front, after, ?_, ?_⟩, covered, room⟩
  · simp only [List.append_assoc]
  · rw [hLocation, List.length_append, Nat.add_assoc]

theorem Stands.tail {first : Instruction} (h : site.Stands symbols t (base + 1) code) :
    site.Stands symbols t base (first :: code) :=
  @Stands.behind symbols t base code site [first] h

/-- A site behind some code and one more instruction. -/
theorem Stands.next {before : List Instruction} {first : Instruction}
    (h : site.Stands symbols t (base + before.length + 1) code) :
    site.Stands symbols t base (before ++ first :: code) :=
  h.tail.behind

theorem stands_here {depth : Nat} {e : Expression} (covered : e.Covered symbols)
    (room : depth + e.temporaries ≤ t) :
    Stands symbols t base (expression symbols depth e) ⟨base, depth, e⟩ :=
  ⟨⟨[], [], (List.append_nil _).symm, rfl⟩, covered, room⟩

theorem stands_expression {e : Expression} {depth : Nat} (covered : e.Covered symbols)
    (room : depth + e.temporaries ≤ t) (h : site ∈ e.sites symbols depth base) :
    site.Stands symbols t base (expression symbols depth e) := by
  induction e generalizing depth base with
  | binary op lhs rhs line type ihl ihr =>
    have hHere := @stands_here symbols t base depth _ covered room
    rw [Expression.temporaries] at room
    rw [Expression.sites, List.mem_cons, List.mem_append] at h
    rw [expression] at hHere ⊢
    rcases h with rfl | h | h
    · exact hHere
    · exact (ihl covered.1 (by omega) h).append _
    · exact ((ihr covered.2 (by omega) h).append _).next
  | constant value line type =>
    obtain rfl := List.mem_singleton.mp h
    exact stands_here covered room
  | reference name line type =>
    obtain rfl := List.mem_singleton.mp h
    exact stands_here covered room
  | malformed line => exact absurd covered id

theorem stands_all (symbols : Symbols) (t : Nat) :
    (∀ (s : Statement) (base : Nat), s.Covered symbols → s.temporaries ≤ t →
      ∀ site ∈ s.sites symbols base, site.Stands symbols t base (statement symbols s)) ∧
    ∀ (ss : List Statement) (base : Nat), Program.Covered symbols ss →
      Program.temporaries ss ≤ t → ∀ site ∈ Program.sites symbols base ss,
        site.Stands symbols t base (statements symbols ss) := by
  refine Statement.ind ?_ ?_ ?_ ?_ ?_ ?_ ?_ ?_
  · intro test yes line ih base covered room site h
    rw [Statement.temporaries] at room
    rw [Statement.sites, List.mem_append] at h
    rw [statement]
    rcases h with h | h
    · exact (stands_expression covered.1 (by omega) h).append _
    · exact (ih _ covered.2 (by omega) site h).next
  · intro test yes no line ihYes ihNo base covered room site h
    rw [Statement.temporaries] at room
    rw [Statement.sites, List.mem_append, List.mem_append] at h
    rw [statement]
    rcases h with h | h | h
    · exact (stands_expression covered.1 (by omega) h).append _
    · exact ((ihYes _ covered.2.1 (by omega) site h).append _).next
    · exact (ihNo _ covered.2.2 (by omega) site h).next.next
  · intro body test line ih base covered room site h
    rw [Statement.temporaries] at room
    rw [Statement.sites, List.mem_append] at h
    rw [statement]
    rcases h with h | h
    · exact (ih _ covered.1 (by omega) site h).append _
    · exact ((stands_expression covered.2 (by omega) h).append _).behind
  · intro name value line base covered room site h
    rw [Statement.temporaries] at room
    exact (stands_expression covered.1 (by omega) h).append _
  · intro name line base covered room site h
    exact nomatch h
  · intro value line base covered room site h
    rw [Statement.temporaries] at room
    exact (stands_expression covered (by omega) h).append _
  · intro base covered room site h
    exact nomatch h
  · intro first rest ihFirst ihRest base covered room site h
    rw [Program.temporaries] at room
    rw [Program.sites, List.mem_append] at h
    rw [statements]
    rcases h with h | h
    · exact (ihFirst _ covered.1 (by omega) site h).append _
    · exact (ihRest _ covered.2 (by omega) site h).behind

end Site

/-! ### Comparisons at work -/

namespace Tick

open Register Assembly

variable {symbols : Symbols} {p : Program} {machine : Machine}

theorem codeAt_of_loaded {code : List Instruction} (loaded : machine.Loaded code) :
    CodeAt machine.code 0 code := by
  intro j i hj
  rw [Nat.zero_add]
  exact loaded.holds j i hj

/-- Where the expression of a site has its code. -/
theorem codeAt_of_site (loaded : machine.Loaded (program symbols p)) {t : Nat} {site : Site}
    (h : site.Stands symbols t 2 (statements symbols p)) :
    2 ≤ site.location ∧
      CodeAt machine.code site.location (expression symbols site.depth site.part) := by
  obtain ⟨⟨before, after, hSplit, hLocation⟩, -, -⟩ := h
  have at_ := codeAt_of_loaded loaded
  rw [program, hSplit] at at_
  have hBegin : site.location = 0 + opening.length + before.length := hLocation
  refine ⟨by omega, ?_⟩
  rw [hBegin]
  have at' := at_.right.left
  exact at'.right.left

/-- The value of a comparison between two different variables that were set. -/
theorem evaluates_less {x y : String} (hNames : x ≠ y) (store : Store) (a b : Int32)
    (lineA lineB line : Nat) (typeA typeB type : ValueType) :
    (Expression.binary .less (.reference x lineA typeA) (.reference y lineB typeB) line
      type).Evaluates ((store.set x a).set y b)
        (.ok (if a.toInt < b.toInt ↔ DifferenceFits a b then 1 else 0)) := by
  have hLess := @Expression.Evaluates.binary ((store.set x a).set y b) .less _ _ line type _ _
    (@Expression.Evaluates.reference _ x lineA typeA)
    (@Expression.Evaluates.reference _ y lineB typeB)
  simpa [Operator.apply, Store.set, hNames, sub_neg_iff] using hLess

/-- Two reads at the start of a program. -/
theorem goes_reads {x y : String} {lineX lineY : Nat}
    (coveredX : ∃ location, symbols.location? x = some location)
    (coveredY : ∃ location, symbols.location? y = some location)
    (at_ : CodeAt machine.code 2 (statements symbols [.read x lineX, .read y lineY]))
    (room : symbols.size ≤ 1024) (a b : Int32) (input : List Int32) :
    ∃ n c, Goes n ((cleared (a :: b :: input)).run machine.code) (c.run machine.code) ∧
      c.pc = 6 ∧ Matches symbols ⟨(Store.zero.set x a).set y b, input, #[]⟩ c := by
  have executes : Program.Executes [.read x lineX, .read y lineY] (.start (a :: b :: input))
      (.ok ⟨(Store.zero.set x a).set y b, input, #[]⟩) :=
    .cons (.read rfl) (.cons (.read rfl) .nil)
  exact @results_statements machine.code symbols _ _ _ executes (cleared (a :: b :: input))
    ⟨coveredX, coveredY, trivial⟩ at_ (show 2 + 4 < 1024 by decide) room
    (Machine.matches_cleared room _)

end Tick

namespace Machine

open Register Tick

/-- Where the machine has come to the code of a comparison, and its operands have values, the code
leaves 1 if the left one is smaller and the difference fits, and also if neither is so; otherwise it
leaves 0. -/
def DecidesLess (machine : Machine) (symbols : Symbols) (p : Program) : Prop :=
  ∀ (location depth : Nat) (lhs rhs : Expression) (line : Nat) (type : ValueType),
    ⟨location, depth, .binary .less lhs rhs line type⟩ ∈ Program.sites symbols 2 p →
    ∀ (input : List Int32) (n : Nat) (run : Run) (store : Store) (a b : Int32),
      Goes n { machine, input } run → run.machine.pc = .ofNat location →
      Shows symbols store run.machine.data →
      lhs.Evaluates store (.ok a) → rhs.Evaluates store (.ok b) →
      ∃ m after, Goes m run after ∧ after.machine.pc = .ofNat (location +
          (Assembly.expression symbols depth (.binary .less lhs rhs line type)).length) ∧
        after.machine.registers[ac] =
          (if a.toInt < b.toInt ↔ DifferenceFits a b then 1 else 0) ∧
        Shows symbols store after.machine.data

/-- If the program compares the first two numbers of its input, it goes on with `yes`, whose code
stands at 16, if the first one is smaller and the difference fits, and also if neither is so;
otherwise it goes on with `no`, whose code stands behind. -/
def ChoosesLess (machine : Machine) (symbols : Symbols) (p : Program) : Prop :=
  ∀ (x y : String) (lineX lineY lineA lineB lineTest line : Nat)
    (typeA typeB typeTest : ValueType) (yes no : List Statement), x ≠ y →
    p = [.read x lineX, .read y lineY,
      .ifElse (.binary .less (.reference x lineA typeA) (.reference y lineB typeB) lineTest
        typeTest) yes no line] →
    ∀ (a b : Int32) (input : List Int32),
      ∃ n c, Goes n { machine, input := a :: b :: input } (c.run machine.code) ∧
        (if a.toInt < b.toInt ↔ DifferenceFits a b then
          c.pc = 16 ∧ CodeAt machine.code 16 (Assembly.statements symbols yes)
        else
          c.pc = 17 + (Assembly.statements symbols yes).length ∧
            CodeAt machine.code (17 + (Assembly.statements symbols yes).length)
              (Assembly.statements symbols no)) ∧
        Matches symbols ⟨(Store.zero.set x a).set y b, input, #[]⟩ c

end Machine

namespace Tick

open Register Assembly

variable {symbols : Symbols} {p : Program} {machine : Machine}

section

variable (loaded : machine.Loaded (program symbols p)) (covered : Program.Covered symbols p)
  (small : (program symbols p).length ≤ 1024)
  (room : symbols.size + Program.temporaries p ≤ 1024)

include loaded covered small room

/-- A machine that has come to a location behind the first two is in a configuration. -/
theorem config_of_goes {input : List Int32} {n l : Nat} {run : Run}
    (h : Goes n { machine, input } run) (low : 2 ≤ l) (high : l < 1024)
    (hPc : run.machine.pc = .ofNat l) : ∃ c : Config, run = c.run machine.code ∧ c.pc = l := by
  have hLocation := congrArg Int32.toInt hPc
  rw [toInt_ofNat_of_lt high] at hLocation
  have hFirst := step_first loaded input
  have hSecond := step_second loaded input
  cases h with
  | refl =>
    have hStart : ({ machine, input : Run }).machine.pc.toInt = 0 := by
      show machine.registers[7].toInt = 0
      simp [loaded.registers, Machine.fresh]
    omega
  | head first rest =>
    obtain ⟨-, rfl⟩ := ok_inj (hFirst.symm.trans first)
    cases rest with
    | refl =>
      have hNext : ((topKnown input).run machine.code).machine.pc.toInt = 1 := by
        show (Int32.ofNat 1).toInt = 1
        decide
      omega
    | head second rest =>
      obtain ⟨-, rfl⟩ := ok_inj (hSecond.symm.trans second)
      obtain ⟨c, rfl, -, inside⟩ := goes_legal (legalFrom_of_loaded loaded covered small)
        (by omega) (by omega) rest rfl (Nat.le_refl 2) (by
          show 2 < (program symbols p).length
          simp only [program, opening, List.length_append, List.length_cons, List.length_nil]
          omega)
      refine ⟨c, rfl, ?_⟩
      have hConfig : (c.run machine.code).machine.pc.toInt = c.pc :=
        toInt_ofNat_of_lt (show c.pc < 1024 by omega)
      omega

/-- **The code of a comparison**, wherever it stands in a program, decides by the difference. -/
theorem decidesLess_of_loaded : machine.DecidesLess symbols p := by
  intro location depth lhs rhs line type hSite input n run store a b h hPc shows hl hr
  have stands := (Site.stands_all symbols (Program.temporaries p)).2 p 2 covered (Nat.le_refl _)
    _ hSite
  obtain ⟨low, at_⟩ := codeAt_of_site loaded stands
  have hInside : location < 1024 := by
    cases hCode : expression symbols depth (.binary .less lhs rhs line type) with
    | nil => simp [expression] at hCode
    | cons first rest =>
      rw [hCode] at at_
      exact (Vector.getElem?_eq_some_iff.mp at_.head).1
  obtain ⟨c, rfl, rfl⟩ := config_of_goes loaded covered small room h low hInside hPc
  have hRoom : depth + (Expression.binary .less lhs rhs line type).temporaries ≤
      Program.temporaries p := stands.room
  obtain ⟨m, c', hGoes, hEnd, hValue, hKeeps, -, -⟩ :=
    @computes_expression _ _ _ depth _ _ _ (.binary hl hr) stands.covered at_ (by omega) shows
  refine ⟨m, c'.run machine.code, hGoes, ?_, ?_, shows.keeps hKeeps⟩
  · show Int32.ofNat c'.pc = _
    rw [hEnd]
  · show c'.ac = _
    rw [hValue]
    simp only [sub_neg_iff]

/-- **A program that compares what it has read** goes on as the difference decides. -/
theorem choosesLess_of_loaded : machine.ChoosesLess symbols p := by
  intro x y lineX lineY lineA lineB lineTest line typeA typeB typeTest yes no hNames hp a b input
  let reads : Program := [.read x lineX, .read y lineY]
  let test : Expression :=
    .binary .less (.reference x lineA typeA) (.reference y lineB typeB) lineTest typeTest
  have hReads : (statements symbols reads).length = 4 := rfl
  have hTest : (expression symbols 0 test).length = 9 := rfl
  have hSplit : statements symbols p = statements symbols reads ++
      statement symbols (.ifElse test yes no line) := by
    rw [hp]
    simp [statements, reads, test]
  have hLength : (program symbols p).length = 2 + (4 + (9 + ((statements symbols yes).length +
      ((statements symbols no).length + 1) + 1))) + 1 := by
    simp only [program, opening, hSplit, statement, List.length_append, List.length_cons,
      List.length_nil, hReads, hTest]
    omega
  have at_ : CodeAt machine.code 2 (statements symbols p) := (codeAt_of_loaded loaded).right.left
  rw [hSplit] at at_
  have atTest : CodeAt machine.code 6 (statement symbols (.ifElse test yes no line)) := at_.right
  rw [statement] at atTest
  subst hp
  obtain ⟨coveredX, coveredY, ⟨coveredTest, -⟩, -⟩ := covered
  simp only [Program.temporaries, Statement.temporaries] at room
  obtain ⟨n, c, hGoes, hPc, shown⟩ :=
    goes_reads coveredX coveredY at_.left (by omega) a b input
  obtain ⟨m, c', hGoes', hPc', shown'⟩ := @goes_test machine.code symbols c _ test _
    (evaluates_less hNames Store.zero a b lineA lineB lineTest typeA typeB typeTest) coveredTest
    _ _ (hPc ▸ atTest) (by simp only [test]; omega) shown (17 + (statements symbols yes).length)
    (by rw [hPc, hTest]; omega) (by rw [hPc, hTest]; decide) (by omega)
  rw [hPc, hTest] at hPc'
  refine ⟨_, c', (goes_cleared loaded _).trans (hGoes.trans hGoes'), ?_, shown'⟩
  have atYes : CodeAt machine.code 16 _ := atTest.right.tail
  by_cases h : a.toInt < b.toInt ↔ DifferenceFits a b
  · rw [if_pos h] at hPc' ⊢
    exact ⟨hPc', atYes.left⟩
  · rw [if_neg h] at hPc' ⊢
    have hNo : 17 + (statements symbols yes).length =
        16 + (statements symbols yes).length + 1 := by omega
    refine ⟨hPc', ?_⟩
    rw [hNo]
    exact atYes.right.tail

end

end Tick

/-! ### Compilations -/

/-- **Compiled comparisons.**  In code that a compilation gives and that fits into the machine, `<`
decides between two numbers as their order does if their difference fits, and against their order
if it does not. -/
theorem compile_compares {feed : Feed} {fileName : String} {options : Options}
    {session session' : Session} {compilation : Compilation} {code : Sink}
    (h : compile feed fileName (.ok {}) options session = .ok compilation session')
    (hCode : compilation.code = some code)
    (plain : options.traceCode = true → '\n' ∉ fileName.toList)
    (fits : Listing.count code.text ≤ 1024) :
    ∃ tree symbols machine,
      (∃ scanner, Scanner.program { feed, listing := session.listing, options } =
        .ok (tree, #[]) scanner) ∧
      compilation.symbols = some symbols ∧ Machine.load code.text = .ok machine ∧
      machine.DecidesLess symbols tree ∧ machine.ChoosesLess symbols tree := by
  obtain ⟨tree, scanner, hScan, hSymbols, hGenerate⟩ := compile_code h hCode
  obtain ⟨covered, hCount⟩ := Code.count_generate plain hGenerate
  obtain ⟨machine, hLoad, loaded⟩ := Machine.load_generate plain hGenerate fits
  rw [Program.covered_check] at covered
  rw [Program.assembly_check] at hCount loaded
  rw [hCount] at fits
  have hRoom := Assembly.size_add_temporaries_lt tree
  have room : (Symbols.ofProgram tree).size + Program.temporaries tree ≤ 1024 := by omega
  exact ⟨tree, _, machine, ⟨scanner, hScan⟩, hSymbols, hLoad,
    Tick.decidesLess_of_loaded loaded covered fits room,
    Tick.choosesLess_of_loaded loaded covered fits room⟩

/-- The bytes of `read a; read b; if a < b then write 1 else write 0 end`. -/
def comparedSource : List UInt8 :=
  [114, 101, 97, 100, 32, 97, 59, 32, 114, 101, 97, 100, 32, 98, 59, 32, 105, 102, 32, 97, 32, 60,
   32, 98, 32, 116, 104, 101, 110, 32, 119, 114, 105, 116, 101, 32, 49, 32, 101, 108, 115, 101, 32,
   119, 114, 105, 116, 101, 32, 48, 32, 101, 110, 100]

/-- The program in these bytes. -/
def comparedTree : Program :=
  [.read "a" 1, .read "b" 1,
   .ifElse (.binary .less (.reference "a" 1 .unresolved) (.reference "b" 1 .unresolved) 1
     .unresolved) [.write (.constant 1 1 .unresolved) 1] [.write (.constant 0 1 .unresolved) 1] 1]

set_option maxRecDepth 4000 in
theorem comparedSource_parses : ∃ scanner, Scanner.program
    { feed := .ofBytes comparedSource, listing := {}, options := {} } =
      .ok (comparedTree, #[]) scanner :=
  ⟨_, by cbv⟩

theorem comparedSource_compiles : ∃ code session,
    compile (.ofBytes comparedSource) "compared.tny" (.ok {}) {} {} =
      .ok { program := comparedTree.check.1, symbols := some (Symbols.ofProgram comparedTree),
            code := some code } session ∧
    comparedTree.check.1.generate (Symbols.ofProgram comparedTree) false "compared.tny" {} =
      (.ok (), code) ∧ Listing.count code.text ≤ 1024 := by
  obtain ⟨scanner, hParse⟩ := comparedSource_parses
  have covered : Program.Covered (Symbols.ofProgram comparedTree) comparedTree.check.1 :=
    ⟨⟨0, rfl⟩, ⟨1, rfl⟩, ⟨⟨⟨0, rfl⟩, ⟨1, rfl⟩⟩, ⟨trivial, trivial⟩, trivial, trivial⟩, trivial⟩
  obtain ⟨entries, hGenerate, -⟩ := Code.generate_run covered (by decide)
    (show Sink.limit {} = none from rfl) false "compared.tny"
  have hCount := (Code.count_generate (fun on => absurd on (by decide)) hGenerate).2
  obtain ⟨session, hCompile⟩ := @compile_of_stages _ _ _ _ {} _ _ hParse rfl hGenerate
  exact ⟨_, session, hCompile, hGenerate, Nat.le_trans (Nat.le_of_eq hCount) (by decide)⟩

/-- The machine for this program goes on with `write 1` for 3 and 9, and with `write 0` for the
lowest word and 1. -/
theorem compile_compares_compared :
    ∃ compilation session code machine,
      compile (.ofBytes comparedSource) "compared.tny" (.ok {}) {} {} = .ok compilation session ∧
      compilation.code = some code ∧ Listing.count code.text ≤ 1024 ∧
      Machine.load code.text = .ok machine ∧
      (∃ (n : Nat) (c : Config), Tick.Goes n { machine, input := [3, 9] } (c.run machine.code) ∧
        c.pc = 16) ∧
      ∃ (n : Nat) (c : Config),
        Tick.Goes n { machine, input := [-2147483648, 1] } (c.run machine.code) ∧ c.pc = 19 := by
  obtain ⟨code, session, hCompile, -, fits⟩ := comparedSource_compiles
  obtain ⟨tree, symbols, machine, ⟨scanner', hTree⟩, -, hLoad, -, chooses⟩ :=
    compile_compares hCompile rfl (fun on => absurd on (by decide)) fits
  obtain ⟨scanner, hParse⟩ := comparedSource_parses
  obtain ⟨hTree, -⟩ := ok_inj (hParse.symm.trans hTree)
  have choice := chooses "a" "b" 1 1 1 1 1 1 .unresolved .unresolved .unresolved _ _ (by decide)
    (Prod.mk.inj hTree).1.symm
  obtain ⟨n, c, hGoes, hPc, -⟩ := choice 3 9 []
  rw [if_pos (by decide)] at hPc
  obtain ⟨n', c', hGoes', hPc', -⟩ := choice (-2147483648) 1 []
  rw [if_neg (by decide)] at hPc'
  exact ⟨_, session, code, machine, hCompile, rfl, fits, hLoad, ⟨n, c, hGoes, hPc.1⟩, n', c',
    hGoes', hPc'.1⟩

/-- The lowest word is smaller than 1, but the program writes 0 for them. -/
theorem compared_lowest_one :
    ∃ compilation session code machine,
      compile (.ofBytes comparedSource) "compared.tny" (.ok {}) {} {} = .ok compilation session ∧
      compilation.code = some code ∧ Listing.count code.text ≤ 1024 ∧
      Machine.load code.text = .ok machine ∧
      (-2147483648 : Int32).toInt < (1 : Int32).toInt ∧
      ∃ n, ∀ limit, n ≤ limit → (machine.run [-2147483648, 1] limit).1 = .ok #[0] := by
  obtain ⟨code, session, hCompile, hGenerate, fits⟩ := comparedSource_compiles
  have plain : false = true → '\n' ∉ "compared.tny".toList := fun on => absurd on (by decide)
  obtain ⟨covered, hCount⟩ := Code.count_generate plain hGenerate
  obtain ⟨machine, hLoad, loaded⟩ := Machine.load_generate plain hGenerate fits
  have realizes := Machine.realizes_of_loaded loaded covered (hCount ▸ fits) (by decide)
    [-2147483648, 1]
  have executes : Program.Executes comparedTree.check.1 (.start [-2147483648, 1])
      (.ok ⟨(Store.zero.set "a" (-2147483648)).set "b" 1, [], #[0]⟩) :=
    .cons (.read rfl) (.cons (.read rfl) (.cons (.ifElseFalse
      (Tick.evaluates_less (by decide) Store.zero _ _ 1 1 1 _ _ _)
      (.cons (.write .constant) .nil)) .nil))
  obtain ⟨n, hRun⟩ := realizes.ends _ executes
  refine ⟨_, session, code, machine, hCompile, rfl, fits, hLoad, by decide, n,
    fun limit hLimit => ?_⟩
  obtain ⟨after, hAfter, -⟩ := hRun limit hLimit
  rw [hAfter]

end Tiny
