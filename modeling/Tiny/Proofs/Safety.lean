import Tiny.Proofs.Occurrences
import Tiny.Proofs.Stepping

/-!
# Generated code stays within its bounds

Variables lie at the bottom of the data memory and temporaries at its top, and nobody looks whether
they meet.  They do not: every name of a program and every operand that waits costs an instruction,
and there are at most as many instructions as data words.

* `size_add_temporaries_lt`: variables and temporaries together are fewer than the instructions.
* `Legal`: what an instruction at some location of generated code may be.
* `legal_program`: every instruction behind the first two is legal.
* `step_legal`: a legal instruction leads to the next configuration, halts at the end, or fails on
  what the program does with its input.
* `generate_safe`: so generated code never leaves its bounds.
-/

namespace Tiny

/-! ### Temporaries -/

namespace Expression

/-- The largest number of operands of an expression that wait at the same time. -/
def temporaries : Expression → Nat
  | .binary _ lhs rhs _ _ => max lhs.temporaries (1 + rhs.temporaries)
  | _ => 0

end Expression

mutual

/-- The largest number of operands that wait at the same time while a statement is executed. -/
def Statement.temporaries : Statement → Nat
  | .ifThen test yes _ => max test.temporaries (Program.temporaries yes)
  | .ifElse test yes no _ =>
    max test.temporaries (max (Program.temporaries yes) (Program.temporaries no))
  | .loop body test _ => max (Program.temporaries body) test.temporaries
  | .assign _ value _ => value.temporaries
  | .read _ _ => 0
  | .write value _ => value.temporaries

/-- The largest number of operands that wait at the same time in a sequence of statements. -/
def Program.temporaries : List Statement → Nat
  | [] => 0
  | statement :: rest => max statement.temporaries (Program.temporaries rest)

end

namespace Assembly

open Register

/-- Every name and every operand that waits has an instruction of its own. -/
theorem expression_cost (symbols : Symbols) (depth : Nat) (e : Expression) :
    e.occurrences.length + e.temporaries ≤ (expression symbols depth e).length := by
  induction e generalizing depth with
  | binary op lhs rhs line type ihl ihr =>
    have hl := ihl depth
    have hr := ihr (depth + 1)
    simp only [Expression.occurrences, Expression.temporaries, expression, List.length_append,
      List.length_cons]
    omega
  | constant value line type => exact Nat.zero_le 1
  | reference name line type => exact Nat.le_refl 1
  | malformed line => exact Nat.le_refl 0

theorem cost (symbols : Symbols) :
    (∀ s : Statement,
      s.occurrences.length + s.temporaries ≤ (statement symbols s).length) ∧
    ∀ ss : List Statement, (Program.occurrences ss).length + Program.temporaries ss ≤
      (statements symbols ss).length := by
  refine Statement.ind ?_ ?_ ?_ ?_ ?_ ?_ ?_ ?_
  · intro test yes line ih
    have hTest := expression_cost symbols 0 test
    simp only [Statement.occurrences, Statement.temporaries, statement, List.length_append,
      List.length_cons]
    omega
  · intro test yes no line ihYes ihNo
    have hTest := expression_cost symbols 0 test
    simp only [Statement.occurrences, Statement.temporaries, statement, List.length_append,
      List.length_cons]
    omega
  · intro body test line ih
    have hTest := expression_cost symbols 0 test
    simp only [Statement.occurrences, Statement.temporaries, statement, List.length_append,
      List.length_cons, List.length_nil]
    omega
  · intro name value line
    have hValue := expression_cost symbols 0 value
    simp only [Statement.occurrences, Statement.temporaries, statement, List.length_append,
      List.length_cons, List.length_nil]
    omega
  · intro name line
    exact Nat.le_succ 1
  · intro value line
    have hValue := expression_cost symbols 0 value
    simp only [Statement.occurrences, Statement.temporaries, statement, List.length_append,
      List.length_cons, List.length_nil]
    omega
  · exact Nat.le_refl 0
  · intro first rest ihFirst ihRest
    simp only [Program.occurrences, Program.temporaries, statements, List.length_append]
    omega

/-- **Variables and temporaries do not meet** if the code has at most as many instructions as there
are data words. -/
theorem size_add_temporaries_lt (p : Program) :
    (Symbols.ofProgram p).size + Program.temporaries p <
      (program (Symbols.ofProgram p) p).length := by
  have hSize := Symbols.size_ofProgram_le p
  have hCost := (cost (Symbols.ofProgram p)).2 p
  simp only [program, opening, List.length_append, List.length_cons, List.length_nil]
  omega

/-! ### Instructions that may occur -/

/-- An instruction that may stand at location `l` of a code of `n` instructions with `k` variables
and `t` temporaries.  It leads to the next location, or to one that is named. -/
inductive Legal (n k t l : Nat) : Instruction → Prop
  | combine {op : Opcode} {f : Int32 → Int32 → Int32} (hOp : Tick.combination? op = some f)
      (next : l + 1 < n) : Legal n k t l (between op ac ac1 ac)
  | divide (next : l + 1 < n) : Legal n k t l (between .div ac ac1 ac)
  | constant {value : Int32} (next : l + 1 < n) : Legal n k t l (indexed .ldc ac value ac)
  | loadVariable {a : Nat} (ha : a < k) (next : l + 1 < n) :
      Legal n k t l (indexed .ld ac (.ofNat a) gp)
  | storeVariable {a : Nat} (ha : a < k) (next : l + 1 < n) :
      Legal n k t l (indexed .st ac (.ofNat a) gp)
  | storeTemporary {depth : Nat} (hDepth : depth < t) (next : l + 1 < n) :
      Legal n k t l (indexed .st ac (Code.temporary depth) mp)
  | loadTemporary {depth : Nat} (hDepth : depth < t) (next : l + 1 < n) :
      Legal n k t l (indexed .ld ac1 (Code.temporary depth) mp)
  | jump {op : Opcode} {holds : Int32 → Bool} (hOp : Tick.condition? op = some holds) {d : Int32}
      {target : Nat} (hTarget : (l + 1 : Nat) + d.toInt = target) (low : 2 ≤ target)
      (high : target < n) (next : l + 1 < n) : Legal n k t l (indexed op ac d pc)
  | goto {d : Int32} {target : Nat} (hTarget : (l + 1 : Nat) + d.toInt = target)
      (low : 2 ≤ target) (high : target < n) : Legal n k t l (indexed .lda pc d pc)
  | input (next : l + 1 < n) : Legal n k t l (between .input ac 0 0)
  | output (next : l + 1 < n) : Legal n k t l (between .output ac 0 0)
  | halt (last : l + 1 = n) : Legal n k t l Instruction.halt

/-- Every instruction of some code that starts at location `base` is legal. -/
def LegalCode (n k t base : Nat) (code : List Instruction) : Prop :=
  ∀ (j : Nat) (i : Instruction), code[j]? = some i → Legal n k t (base + j) i

section LegalCode

variable {n k t base : Nat}

theorem LegalCode.nil : LegalCode n k t base [] := by
  intro j i h
  cases h

theorem LegalCode.cons {first : Instruction} {rest : List Instruction}
    (h : Legal n k t base first) (h' : LegalCode n k t (base + 1) rest) :
    LegalCode n k t base (first :: rest) := by
  intro j i hj
  cases j with
  | zero =>
    obtain rfl : first = i := Option.some.inj hj
    exact h
  | succ j =>
    rw [Nat.add_comm j 1, ← Nat.add_assoc]
    exact h' j i hj

theorem LegalCode.append {code more : List Instruction} (h : LegalCode n k t base code)
    (h' : LegalCode n k t (base + code.length) more) : LegalCode n k t base (code ++ more) := by
  intro j i hj
  by_cases hIn : j < code.length
  · rw [List.getElem?_append_left hIn] at hj
    exact h j i hj
  · rw [List.getElem?_append_right (by omega)] at hj
    have := h' _ i hj
    rwa [show base + code.length + (j - code.length) = base + j by omega] at this

end LegalCode

/-- A branch over some distance, as the machine reads it. -/
theorem toInt_branch {l target : Nat} {distance : Int} (h : (l + 1 : Nat) + distance = target)
    (hl : l < 1024) (hTarget : target < 1024) :
    (l + 1 : Nat) + (Int32.ofInt distance).toInt = target := by
  rw [toInt_ofInt_of_abs (by omega) (by omega), h]

section Parts

variable {n k t base : Nat} {symbols : Symbols}

theorem legal_comparison {jump : Opcode} {holds : Int32 → Bool}
    (hJump : Tick.condition? jump = some holds) (low : 2 ≤ base) (high : base + 5 < n) :
    LegalCode n k t base (comparison jump) := by
  have hTwo : (2 : Int32).toInt = 2 := by decide
  have hOne : (1 : Int32).toInt = 1 := by decide
  refine .cons (.combine rfl (by omega)) (.cons ?_ (.cons (.constant (by omega))
    (.cons ?_ (.cons (.constant (by omega)) .nil))))
  · exact .jump hJump (show _ = ((base + 4 : Nat) : Int) by omega) (by omega) (by omega) (by omega)
  · exact .goto (show _ = ((base + 5 : Nat) : Int) by omega) (by omega) (by omega)

theorem legal_operator (op : Operator) (low : 2 ≤ base)
    (high : base + (operator op).length < n) : LegalCode n k t base (operator op) := by
  cases op with
  | add => exact .cons (.combine rfl high) .nil
  | sub => exact .cons (.combine rfl high) .nil
  | mul => exact .cons (.combine rfl high) .nil
  | div => exact .cons (.divide high) .nil
  | less => exact legal_comparison rfl low high
  | equal => exact legal_comparison rfl low high

theorem offset_eq {name : String} {location : Nat} (h : symbols.location? name = some location) :
    offset symbols name = .ofNat location := by
  rw [offset, h, Option.getD_some]

theorem legal_expression {e : Expression} (covered : e.Covered symbols) {depth : Nat}
    (low : 2 ≤ base) (high : base + (expression symbols depth e).length < n)
    (hDepth : depth + e.temporaries ≤ t) :
    LegalCode n symbols.size t base (expression symbols depth e) := by
  induction e generalizing depth base with
  | constant value line type => exact .cons (.constant high) .nil
  | reference name line type =>
    obtain ⟨location, h⟩ := covered
    rw [expression, offset_eq h] at high ⊢
    exact .cons (.loadVariable (Symbols.location?_lt_size h) high) .nil
  | binary op lhs rhs line type ihl ihr =>
    rw [Expression.temporaries] at hDepth
    simp only [expression, List.length_append, List.length_cons] at high ⊢
    refine (ihl covered.1 low (by omega) (by omega)).append ?_
    refine .cons (.storeTemporary (by omega) (by omega)) ?_
    refine (ihr covered.2 (by omega) (by omega) (by omega)).append ?_
    refine .cons (.loadTemporary (by omega) (by omega)) ?_
    exact legal_operator op (by omega) (by omega)
  | malformed line => exact absurd covered id

theorem legal_all (small : n ≤ 1024) :
    (∀ (s : Statement) (base : Nat), s.Covered symbols → 2 ≤ base →
      base + (statement symbols s).length < n → s.temporaries ≤ t →
      LegalCode n symbols.size t base (statement symbols s)) ∧
    ∀ (ss : List Statement) (base : Nat), Program.Covered symbols ss → 2 ≤ base →
      base + (statements symbols ss).length < n → Program.temporaries ss ≤ t →
      LegalCode n symbols.size t base (statements symbols ss) := by
  refine Statement.ind ?_ ?_ ?_ ?_ ?_ ?_ ?_ ?_
  · intro test yes line ih base covered low high hTemps
    rw [Statement.temporaries] at hTemps
    simp only [statement, List.length_append, List.length_cons] at high ⊢
    refine (legal_expression covered.1 low (by omega) (by omega)).append (.cons ?_ ?_)
    · exact .jump rfl (toInt_branch (show _ = ((base + (expression symbols 0 test).length + 1 +
        (statements symbols yes).length : Nat) : Int) by omega) (by omega) (by omega))
        (by omega) (by omega) (by omega)
    · exact ih _ covered.2 (by omega) (by omega) (by omega)
  · intro test yes no line ihYes ihNo base covered low high hTemps
    rw [Statement.temporaries] at hTemps
    simp only [statement, List.length_append, List.length_cons] at high ⊢
    refine (legal_expression covered.1 low (by omega) (by omega)).append (.cons ?_ ?_)
    · exact .jump rfl (toInt_branch (show _ = ((base + (expression symbols 0 test).length + 1 +
        ((statements symbols yes).length + 1) : Nat) : Int) by omega) (by omega) (by omega))
        (by omega) (by omega) (by omega)
    · refine (ihYes _ covered.2.1 (by omega) (by omega) (by omega)).append (.cons ?_ ?_)
      · exact .goto (toInt_branch (show _ = ((base + (expression symbols 0 test).length + 1 +
          (statements symbols yes).length + 1 + (statements symbols no).length : Nat) : Int)
          by omega) (by omega) (by omega)) (by omega) (by omega)
      · exact ihNo _ covered.2.2 (by omega) (by omega) (by omega)
  · intro body test line ih base covered low high hTemps
    rw [Statement.temporaries] at hTemps
    simp only [statement, List.length_append, List.length_cons, List.length_nil] at high ⊢
    refine (ih _ covered.1 low (by omega) (by omega)).append ?_
    refine (legal_expression covered.2 (by omega) (by omega) (by omega)).append (.cons ?_ .nil)
    exact .jump rfl (toInt_branch (show _ = ((base : Nat) : Int) by omega) (by omega) (by omega))
      low (by omega) (by omega)
  · intro name value line base covered low high hTemps
    obtain ⟨hValue, location, h⟩ := covered
    simp only [statement, List.length_append, List.length_cons, List.length_nil] at high ⊢
    rw [offset_eq h]
    refine (legal_expression hValue low (by omega) (by rwa [Nat.zero_add])).append ?_
    exact .cons (.storeVariable (Symbols.location?_lt_size h) (by omega)) .nil
  · intro name line base covered low high _
    obtain ⟨location, h⟩ := covered
    simp only [statement, List.length_cons, List.length_nil] at high ⊢
    rw [offset_eq h]
    refine .cons (.input (by omega)) (.cons ?_ .nil)
    exact .storeVariable (Symbols.location?_lt_size h) (by omega)
  · intro value line base covered low high hTemps
    simp only [statement, List.length_append, List.length_cons, List.length_nil] at high ⊢
    refine (legal_expression covered low (by omega) (by rwa [Nat.zero_add])).append ?_
    exact .cons (.output (by omega)) .nil
  · intro base _ _ _ _
    exact .nil
  · intro first rest ihFirst ihRest base covered low high hTemps
    rw [Program.temporaries] at hTemps
    rw [statements, List.length_append] at high
    rw [statements]
    exact (ihFirst _ covered.1 low (by omega) (by omega)).append
      (ihRest _ covered.2 (by omega) (by omega) (by omega))

end Parts

/-- **Every instruction of a program behind the first two is legal.** -/
theorem legal_program {symbols : Symbols} {p : Program} (covered : Program.Covered symbols p)
    (small : (program symbols p).length ≤ 1024) :
    LegalCode (program symbols p).length symbols.size (Program.temporaries p) 2
      (statements symbols p ++ [Instruction.halt]) := by
  have hLength : (program symbols p).length = 2 + (statements symbols p).length + 1 := by
    simp only [program, opening, List.length_append, List.length_cons, List.length_nil]
    omega
  refine LegalCode.append ?_ (.cons (.halt hLength.symm) .nil)
  exact (legal_all small).2 p 2 covered (Nat.le_refl 2) (by omega) (Nat.le_refl _)

/-- A legal instruction that uses the data memory uses a variable or a temporary. -/
theorem Legal.access {n k t l : Nat} {i : Instruction} (h : Legal n k t l i)
    (hClass : i.op.opClass = .registerMemory) :
    (∃ a, a < k ∧ i.s = .ofNat a ∧ i.t = .ofNat gp) ∨
      ∃ depth, depth < t ∧ i.s = Code.temporary depth ∧ i.t = .ofNat mp := by
  cases h with
  | loadVariable ha next => exact .inl ⟨_, ha, rfl, rfl⟩
  | storeVariable ha next => exact .inl ⟨_, ha, rfl, rfl⟩
  | storeTemporary hDepth next => exact .inr ⟨_, hDepth, rfl, rfl⟩
  | loadTemporary hDepth next => exact .inr ⟨_, hDepth, rfl, rfl⟩
  | @combine op f hOp next => cases op <;> cases hOp <;> cases hClass
  | divide next => cases hClass
  | constant next => cases hClass
  | @jump op holds hOp d target hTarget low high next => cases op <;> cases hOp <;> cases hClass
  | goto hTarget low high => cases hClass
  | input next => cases hClass
  | output next => cases hClass
  | halt last => cases hClass

end Assembly

/-! ### Steps and runs -/

namespace Tick

open Register Assembly

variable {n k t : Nat} {code : Vector Instruction 1024} {c : Config}

/-- The outcomes of a step of generated code: the next configuration, a halt at the last location,
or a failure that the program itself is to blame for. -/
inductive Outcome (n : Nat) (code : Vector Instruction 1024) (c : Config) :
    EStateM.Result MachineFault Run Status → Prop
  | goesOn (next : Config) (low : 2 ≤ next.pc) (high : next.pc < n) :
      Outcome n code c (.ok .running (next.run code))
  | halts (last : c.pc + 1 = n) : Outcome n code c (.ok .halted (c.next.run code))
  | divisionByZero :
      Outcome n code c (.error (.divisionByZero (.ofNat c.pc)) (c.next.run code))
  | inputExhausted :
      Outcome n code c (.error (.inputExhausted (.ofNat c.pc)) (c.next.run code))

/-- **What a step of generated code can do.** -/
theorem step_legal {i : Instruction} (legal : Legal n k t c.pc i) (h : code[c.pc]? = some i)
    (low : 2 ≤ c.pc) (hk : k ≤ 1024) (ht : t ≤ 1024) :
    Outcome n code c (step (c.run code)) := by
  have hLow : 2 ≤ c.pc + 1 := by omega
  cases legal with
  | combine hOp next => rw [step_combine hOp h]; exact .goesOn _ hLow next
  | divide next =>
    by_cases hZero : c.ac = 0
    · rw [step_div_zero h hZero]; exact .divisionByZero
    · rw [step_div h hZero]; exact .goesOn _ hLow next
  | constant next => rw [step_constant h]; exact .goesOn _ hLow next
  | @loadVariable a ha next =>
    rw [step_loadVariable (show a < 1024 by omega) h]; exact .goesOn _ hLow next
  | @storeVariable a ha next =>
    rw [step_storeVariable (show a < 1024 by omega) h]; exact .goesOn _ hLow next
  | @storeTemporary depth hDepth next =>
    rw [step_storeTemporary (show depth < 1024 by omega) h]; exact .goesOn _ hLow next
  | @loadTemporary depth hDepth next =>
    rw [step_loadTemporary (show depth < 1024 by omega) h]; exact .goesOn _ hLow next
  | @jump op holds hOp d target hTarget low' high next =>
    rw [step_jump hOp hTarget h]
    refine .goesOn _ ?_ ?_
    · show 2 ≤ if holds c.ac then target else c.pc + 1
      split <;> omega
    · show (if holds c.ac then target else c.pc + 1) < n
      split <;> omega
  | goto hTarget low' high => rw [step_goto hTarget h]; exact .goesOn _ low' high
  | input next =>
    cases hInput : c.input with
    | nil => rw [step_input_exhausted h hInput]; exact .inputExhausted
    | cons word rest => rw [step_input h hInput]; exact .goesOn _ hLow next
  | output next => rw [step_output h]; exact .goesOn _ hLow next
  | halt last => rw [step_halt h]; exact .halts last

/-- Every location of the code from 2 on holds a legal instruction. -/
def LegalFrom (n k t : Nat) (code : Vector Instruction 1024) : Prop :=
  ∀ l, 2 ≤ l → l < n → ∃ i, code[l]? = some i ∧ Legal n k t l i

/-- **A run stays within the code**, one legal instruction after the other. -/
theorem goes_legal (legal : LegalFrom n k t code) (hk : k ≤ 1024) (ht : t ≤ 1024) {m : Nat}
    {run after : Run} (h : Goes m run after) (hRun : run = c.run code) (low : 2 ≤ c.pc)
    (high : c.pc < n) : ∃ c' : Config, after = c'.run code ∧ 2 ≤ c'.pc ∧ c'.pc < n := by
  induction h generalizing c with
  | refl run => exact ⟨c, hRun, low, high⟩
  | @head m run middle after first _ ih =>
    subst hRun
    obtain ⟨i, hi, hLegal⟩ := legal c.pc low high
    have hOutcome := step_legal hLegal hi low hk ht
    rw [first] at hOutcome
    cases hOutcome with
    | goesOn next low' high' => exact ih rfl low' high'

theorem legalFrom_of_loaded {symbols : Symbols} {p : Program} {machine : Machine}
    (loaded : machine.Loaded (Assembly.program symbols p)) (covered : Program.Covered symbols p)
    (small : (Assembly.program symbols p).length ≤ 1024) :
    LegalFrom (Assembly.program symbols p).length symbols.size (Program.temporaries p)
      machine.code := by
  intro l low high
  obtain ⟨j, rfl⟩ : ∃ j, l = 2 + j := ⟨l - 2, by omega⟩
  have hTail : (Assembly.program symbols p)[2 + j]? =
      (statements symbols p ++ [Instruction.halt])[j]? := by
    rw [Assembly.program, List.getElem?_append_right (show opening.length ≤ 2 + j from by
      show 2 ≤ 2 + j; omega)]
    congr 1
    show 2 + j - 2 = j
    omega
  have hSome := List.getElem?_eq_getElem high
  refine ⟨_, loaded.holds _ _ hSome, legal_program covered small j _ ?_⟩
  rw [← hTail, hSome]

end Tick

namespace Run

open Register

/-- The next instruction of a run is within the bounds of a code of `n` instructions with `k`
variables and `t` temporaries. -/
structure Safe (n k t : Nat) (run : Run) : Prop where
  inCode : 0 ≤ run.machine.pc.toInt ∧ run.machine.pc.toInt < n
  /-- The bases of variables and temporaries are what they should be after the step. -/
  bases : ∀ status after, Tick.step run = .ok status after →
    after.machine.registers[gp] = 0 ∧ after.machine.registers[mp] = 1023
  /-- The machine halts at the last instruction only. -/
  halts : ∀ after, Tick.step run = .ok .halted after → run.machine.pc.toInt = n - 1
  inVariables : ∀ i, run.machine.fetch? run.machine.pc = some i →
    i.op.opClass = .registerMemory → i.t = .ofNat gp →
    0 ≤ (i.s + run.machine.registers[gp]).toInt ∧ (i.s + run.machine.registers[gp]).toInt < k
  inTemporaries : ∀ i, run.machine.fetch? run.machine.pc = some i →
    i.op.opClass = .registerMemory → i.t = .ofNat mp →
    k ≤ (i.s + run.machine.registers[mp]).toInt ∧
      1024 - t ≤ (i.s + run.machine.registers[mp]).toInt ∧
      (i.s + run.machine.registers[mp]).toInt < 1024
  /-- Nothing else can go wrong than what the program does with its input. -/
  faults : ∀ fault after, Tick.step run = .error fault after →
    fault = .divisionByZero run.machine.pc ∨ fault = .inputExhausted run.machine.pc

end Run

namespace Tick

open Register Assembly

variable {n k t : Nat} {code : Vector Instruction 1024} {c : Config} {symbols : Symbols}
  {p : Program} {machine : Machine}

theorem safe_of_legal {i : Instruction} (legal : Legal n k t c.pc i) (h : code[c.pc]? = some i)
    (low : 2 ≤ c.pc) (high : c.pc < n) (hn : n ≤ 1024) (room : k + t ≤ 1024) :
    (c.run code).Safe n k t := by
  have hPc : (c.run code).machine.pc.toInt = c.pc := toInt_ofNat_of_lt (by omega)
  have hFetch : (c.run code).machine.fetch? (c.run code).machine.pc = some i :=
    @fetch?_eq (c.run code).machine c.pc i h
  have hOutcome := step_legal legal h low (by omega) (by omega)
  constructor
  · omega
  · intro status after hStep
    rw [hStep] at hOutcome
    cases hOutcome with
    | goesOn next low high => exact ⟨rfl, rfl⟩
    | halts last => exact ⟨rfl, rfl⟩
  · intro after hStep
    rw [hStep] at hOutcome
    cases hOutcome with
    | halts last => omega
  · intro i' hi' hClass hBase
    obtain rfl : i = i' := Option.some.inj (hFetch.symm.trans hi')
    rcases legal.access hClass with ⟨a, ha, hs, -⟩ | ⟨depth, -, -, ht⟩
    · have hAddress : (i.s + (c.run code).machine.registers[gp]).toInt = a := by
        rw [hs]
        show (Int32.ofNat a + 0).toInt = a
        rw [Int32.add_zero, toInt_ofNat_of_lt (by omega)]
      omega
    · exact absurd (hBase.symm.trans ht) (by decide)
  · intro i' hi' hClass hBase
    obtain rfl : i = i' := Option.some.inj (hFetch.symm.trans hi')
    rcases legal.access hClass with ⟨a, -, -, ht⟩ | ⟨depth, hDepth, hs, -⟩
    · exact absurd (hBase.symm.trans ht) (by decide)
    · have hAddress : (i.s + (c.run code).machine.registers[mp]).toInt = (1023 - depth : Nat) := by
        rw [hs]
        exact toInt_temporary (by omega)
      omega
  · intro fault after hStep
    rw [hStep] at hOutcome
    cases hOutcome with
    | divisionByZero => exact .inl rfl
    | inputExhausted => exact .inr rfl

/-- The first two instructions use neither variables nor temporaries, and go on. -/
theorem safe_of_opening {run after : Run} {l : Nat} {i : Instruction}
    (hPc : run.machine.pc = .ofNat l) (hl : l < n) (hn : n ≤ 1024)
    (hCode : run.machine.code[l]? = some i) (hBase : i.t = .ofNat ac)
    (hStep : step run = .ok .running after) (hGp : after.machine.registers[gp] = 0)
    (hMp : after.machine.registers[mp] = 1023) : run.Safe n k t := by
  have hInt : run.machine.pc.toInt = l := by rw [hPc, toInt_ofNat_of_lt (by omega)]
  have hNoBase : ∀ r i', run.machine.fetch? run.machine.pc = some i' → i'.t = .ofNat r →
      Int32.ofNat ac = .ofNat r := by
    intro r i' hFetch hr
    rw [hPc, fetch?_eq hCode] at hFetch
    obtain rfl : i = i' := Option.some.inj hFetch
    exact hBase.symm.trans hr
  constructor
  · omega
  · intro status after' h
    rw [hStep] at h
    obtain ⟨-, rfl⟩ := ok_inj h
    exact ⟨hGp, hMp⟩
  · intro after' h
    rw [hStep] at h
    cases h
  · intro i' hFetch _ hr
    exact absurd (hNoBase gp i' hFetch hr) (by decide)
  · intro i' hFetch _ hr
    exact absurd (hNoBase mp i' hFetch hr) (by decide)
  · intro fault after' h
    rw [hStep] at h
    cases h

/-- **Every step of a machine that was loaded with code is safe.** -/
theorem safe_of_goes (loaded : machine.Loaded (Assembly.program symbols p))
    (covered : Program.Covered symbols p) (small : (Assembly.program symbols p).length ≤ 1024)
    (room : symbols.size + Program.temporaries p ≤ 1024) {input : List Int32} {m : Nat}
    {run : Run} (h : Goes m { machine, input } run) :
    run.Safe (Assembly.program symbols p).length symbols.size (Program.temporaries p) := by
  have hLength : 2 < (Assembly.program symbols p).length := by
    simp only [Assembly.program, opening, List.length_append, List.length_cons, List.length_nil]
    omega
  have hFirst := step_first loaded input
  have hSecond := step_second loaded input
  have hPc : ({ machine, input : Run }).machine.pc = .ofNat 0 := by
    show machine.registers[7] = 0
    simp [loaded.registers, Machine.fresh]
  cases h with
  | refl =>
    exact safe_of_opening hPc (by omega) small (loaded.holds 0 _ rfl) rfl hFirst rfl rfl
  | head first rest =>
    obtain ⟨-, rfl⟩ := ok_inj (hFirst.symm.trans first)
    cases rest with
    | refl =>
      exact safe_of_opening rfl (show 1 < _ by omega) small (loaded.holds 1 _ rfl) rfl hSecond rfl
        rfl
    | head second rest =>
      obtain ⟨-, rfl⟩ := ok_inj (hSecond.symm.trans second)
      have legal := legalFrom_of_loaded loaded covered small
      obtain ⟨c, rfl, low, high⟩ := goes_legal legal (by omega) (by omega) rest rfl
        (Nat.le_refl 2) hLength
      obtain ⟨i, hi, hLegal⟩ := legal c.pc low high
      exact safe_of_legal hLegal hi low high small room

/-- **Generated code that fits stays within its bounds.**  It is loaded; its variables and its
temporaries have room beside each other; and whatever the input is, every step up to the one that
halts is safe. -/
theorem generate_safe {p : Program} {fileName : String} {sink : Sink}
    (h : p.generate (Symbols.ofProgram p) false fileName {} = (.ok (), sink))
    (fits : Listing.count sink.text ≤ 1024) :
    (Symbols.ofProgram p).size + Program.temporaries p ≤ 1024 ∧
    ∃ machine, Machine.load sink.text = .ok machine ∧
      ∀ (input : List Int32) (m : Nat) (run : Run), Goes m { machine, input } run →
        run.Safe (Listing.count sink.text) (Symbols.ofProgram p).size (Program.temporaries p) := by
  have plain : false = true → '\n' ∉ fileName.toList := fun on => absurd on (by decide)
  obtain ⟨covered, hCount⟩ := Code.count_generate plain h
  obtain ⟨machine, hLoad, loaded⟩ := Machine.load_generate plain h fits
  have hRoom := size_add_temporaries_lt p
  rw [hCount] at fits ⊢
  have room : (Symbols.ofProgram p).size + Program.temporaries p ≤ 1024 := by omega
  exact ⟨room, machine, hLoad, fun input m run hGoes =>
    safe_of_goes loaded covered fits room hGoes⟩

/-- A division by what was read. -/
def quotientOfInput : Program :=
  [.read "x" 1,
   .write (.binary .div (.constant 6 2 .integer) (.reference "x" 2 .integer) 2 .integer) 2]

/-- The code of this division has eleven instructions, with one variable and one temporary. -/
theorem generate_safe_quotientOfInput :
    ∃ sink machine,
      quotientOfInput.generate (Symbols.ofProgram quotientOfInput) false "division.tny" {} =
        (.ok (), sink) ∧
      Listing.count sink.text = 11 ∧ Machine.load sink.text = .ok machine ∧
      ∀ (input : List Int32) (m : Nat) (run : Run), Goes m { machine, input } run →
        run.Safe 11 1 1 := by
  have covered : Program.Covered (Symbols.ofProgram quotientOfInput) quotientOfInput :=
    ⟨⟨0, rfl⟩, ⟨trivial, ⟨0, rfl⟩⟩, trivial⟩
  obtain ⟨entries, hGenerate, -⟩ := Code.generate_run covered (by decide)
    (show Sink.limit {} = none from rfl) false "division.tny"
  have hCount := (Code.count_generate (fun on => absurd on (by decide)) hGenerate).2
  obtain ⟨-, machine, hLoad, hSafe⟩ := generate_safe hGenerate (by rw [hCount]; decide)
  rw [hCount] at hSafe
  exact ⟨_, machine, hGenerate, hCount, hLoad, hSafe⟩

end Tick

end Tiny
