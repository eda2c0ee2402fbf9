import Tiny.Proofs.Loading

/-!
# Steps of generated code

Generated code uses two accumulators and the program counter; behind the first two instructions
the other registers stay as they are.  A `Config` is a machine of that form with its input and
output, and there is one equation for every instruction that occurs in generated code.

* `Goes`: some number of steps after which the machine is still running.
* `steps_of_goes`: a run of the machine first goes through such steps.
* `goes_cleared`: the first two steps of a machine that was loaded lead to a `Config`.
-/

namespace Tiny

/-- A machine at work on generated code, behind the first two instructions. -/
structure Config where
  /-- The location of the next instruction. -/
  pc : Nat
  ac : Int32
  ac1 : Int32
  data : Vector Int32 1024
  input : List Int32
  output : Array Int32

namespace Config

/-- The machine that a configuration stands for, with its input and output. -/
def run (code : Vector Instruction 1024) (c : Config) : Run where
  machine := { code, data := c.data, registers := #v[c.ac, c.ac1, 0, 0, 0, 0, 1023, .ofNat c.pc] }
  input := c.input
  output := c.output

/-- The configuration with the next instruction passed. -/
def next (c : Config) : Config :=
  { c with pc := c.pc + 1 }

end Config

namespace Tick

open Register

variable {code : Vector Instruction 1024} {c : Config}

/-! ### Words -/

theorem toInt_ofNat_of_lt {n : Nat} (h : n < 1024) : (Int32.ofNat n).toInt = n :=
  Int32.toInt_ofNat_of_lt (by omega)

theorem ofNat_eq_ofInt (n : Nat) : Int32.ofNat n = Int32.ofInt n :=
  Int32.ofInt_eq_ofNat.symm

/-- An offset behind a location. -/
theorem add_ofNat {d : Int32} {here target : Nat} (h : (here : Int) + d.toInt = target) :
    d + Int32.ofNat here = Int32.ofNat target := by
  rw [ofNat_eq_ofInt, ofNat_eq_ofInt, ← h, Int.add_comm, Int32.ofInt_add, Int32.ofInt_toInt]

/-- The address of a temporary. -/
theorem toInt_temporary {depth : Nat} (h : depth < 1024) :
    (Code.temporary depth + 1023).toInt = (1023 - depth : Nat) := by
  have hSum : Code.temporary depth + 1023 = Int32.ofInt (-depth + 1023) := by
    rw [Int32.ofInt_add]
    rfl
  rw [hSum, Assembly.toInt_ofInt_of_abs (by omega) (by omega)]
  omega

theorem address_eq {a : Int32} {k : Nat} (h : a.toInt = k) (hk : k < 1024) (r : Run) :
    address a r = .ok ⟨k, hk⟩ r := by
  have hRange : 0 ≤ a.toInt ∧ a.toInt < 1024 := by omega
  rw [address, dif_pos hRange]
  simp only [h, Int.toNat_natCast]
  rfl

/-! ### Effects -/

theorem register_ofNat {r : Nat} (hr : r < 8) (run : Run) :
    register (.ofNat r) run = .ok ⟨r, hr⟩ run := by
  have hInt := toInt_ofNat_of_lt (show r < 1024 by omega)
  have hRange : 0 ≤ (Int32.ofNat r).toInt ∧ (Int32.ofNat r).toInt < 8 := by omega
  rw [register, dif_pos hRange]
  simp only [hInt, Int.toNat_natCast]
  rfl

theorem operand_eq {r : Nat} (hr : r < 8) (run : Run) :
    operand (.ofNat r) run = .ok run.machine.registers[r] run :=
  bind_of_ok (register_ofNat hr run)

theorem indexed_eq {base : Nat} (hb : base < 8) (offset : Int32) (run : Run) :
    indexed offset (.ofNat base) run = .ok (offset + run.machine.registers[base]) run :=
  bind_of_ok (operand_eq hb run)

theorem execute_of_perform {here s t : Int32} {op : Opcode} {r : Nat} (hr : r < 8)
    {run after : Run} (h : perform here op ⟨r, hr⟩ s t run = .ok () after) :
    execute here ⟨op, .ofNat r, s, t⟩ run =
      .ok (if op = .halt then .halted else .running) after := by
  rw [execute, bind_of_ok (register_ofNat hr run), bind_of_ok h]
  rfl

theorem perform_ld {here offset : Int32} {r base k : Nat} (hr : r < 8) (hb : base < 8)
    (hk : k < 1024) {run : Run} (h : (offset + run.machine.registers[base]).toInt = k) :
    perform here .ld ⟨r, hr⟩ offset (.ofNat base) run =
      .ok () { run with machine := run.machine.setRegister ⟨r, hr⟩ run.machine.data[k] } := by
  rw [perform, bind_of_ok (indexed_eq hb offset run), bind_of_ok (address_eq h hk run)]
  rfl

theorem perform_st {here offset : Int32} {r base k : Nat} (hr : r < 8) (hb : base < 8)
    (hk : k < 1024) {run : Run} (h : (offset + run.machine.registers[base]).toInt = k) :
    perform here .st ⟨r, hr⟩ offset (.ofNat base) run =
      .ok () { run with machine := run.machine.setData ⟨k, hk⟩ run.machine.registers[r] } := by
  rw [perform, bind_of_ok (indexed_eq hb offset run), bind_of_ok (address_eq h hk run)]
  rfl

/-! ### Single steps -/

theorem fetch?_eq {machine : Machine} {l : Nat} {i : Instruction}
    (h : machine.code[l]? = some i) : machine.fetch? (.ofNat l) = some i := by
  have hl : l < 1024 := (Vector.getElem?_eq_some_iff.mp h).1
  have hInt := toInt_ofNat_of_lt hl
  have hPos : (0 : Int32) ≤ .ofNat l := by
    rw [Int32.le_iff_toInt_le, hInt]
    exact Int.natCast_nonneg l
  rw [Machine.fetch?, if_pos hPos, hInt, Int.toNat_natCast, h]

/-- A step executes the instruction at the program counter, which is passed first. -/
theorem step_of_fetch {run : Run} {l : Nat} {i : Instruction} (hPc : run.machine.pc = .ofNat l)
    (h : run.machine.code[l]? = some i) :
    step run = execute (.ofNat l) i
      { run with machine := run.machine.setRegister 7 (.ofNat (l + 1)) } := by
  have hNext : (1 : Int32) + .ofNat l = .ofNat (l + 1) :=
    add_ofNat (show (l : Int) + 1 = (l + 1 : Nat) by omega)
  rw [step, get_bind, hPc, get_bind, fetch?_eq h, Int32.add_comm, hNext]
  rfl

theorem step_eq {i : Instruction} (h : code[c.pc]? = some i) :
    step (c.run code) = execute (.ofNat c.pc) i (c.next.run code) :=
  step_of_fetch rfl h

/-- What the instructions between the accumulators compute, except for division. -/
def combination? : Opcode → Option (Int32 → Int32 → Int32)
  | .add => some (· + ·)
  | .sub => some (· - ·)
  | .mul => some (· * ·)
  | _ => none

theorem step_combine {op : Opcode} {f : Int32 → Int32 → Int32} (hf : combination? op = some f)
    (h : code[c.pc]? = some (Assembly.between op ac ac1 ac)) :
    step (c.run code) = .ok .running ({ c.next with ac := f c.ac1 c.ac }.run code) := by
  rw [step_eq h]
  cases op <;> cases hf <;> rfl

theorem step_div (h : code[c.pc]? = some (Assembly.between .div ac ac1 ac)) (hZero : c.ac ≠ 0) :
    step (c.run code) = .ok .running ({ c.next with ac := c.ac1 / c.ac }.run code) := by
  have hQuotient : quotient (.ofNat c.pc) c.ac1 c.ac (c.next.run code) =
      .ok (c.ac1 / c.ac) (c.next.run code) := by
    rw [quotient, if_neg hZero]
    rfl
  have hPerform : perform (.ofNat c.pc) .div 0 (.ofNat ac1) (.ofNat ac) (c.next.run code) =
      .ok () ({ c.next with ac := c.ac1 / c.ac }.run code) := by
    rw [perform, bind_of_ok (operand_eq (show ac1 < 8 by decide) _),
      bind_of_ok (operand_eq (show ac < 8 by decide) _)]
    exact bind_of_ok hQuotient
  rw [step_eq h]
  exact execute_of_perform (show ac < 8 by decide) hPerform

theorem step_div_zero (h : code[c.pc]? = some (Assembly.between .div ac ac1 ac))
    (hZero : c.ac = 0) :
    step (c.run code) = .error (.divisionByZero (.ofNat c.pc)) (c.next.run code) := by
  obtain ⟨pc, x, ac1, data, input, output⟩ := c
  obtain rfl : x = 0 := hZero
  rw [step_eq h]
  rfl

theorem step_constant {value : Int32} (h : code[c.pc]? = some (Assembly.indexed .ldc ac value ac)) :
    step (c.run code) = .ok .running ({ c.next with ac := value }.run code) := by
  rw [step_eq h]
  rfl

theorem step_loadVariable {a : Nat} (ha : a < 1024)
    (h : code[c.pc]? = some (Assembly.indexed .ld ac (.ofNat a) gp)) :
    step (c.run code) = .ok .running ({ c.next with ac := c.data[a] }.run code) := by
  have hAddress : (Int32.ofNat a + 0).toInt = a := by rw [Int32.add_zero, toInt_ofNat_of_lt ha]
  rw [step_eq h]
  exact execute_of_perform (show ac < 8 by decide)
    (perform_ld (show ac < 8 by decide) (show gp < 8 by decide) ha hAddress)

theorem step_storeVariable {a : Nat} (ha : a < 1024)
    (h : code[c.pc]? = some (Assembly.indexed .st ac (.ofNat a) gp)) :
    step (c.run code) = .ok .running ({ c.next with data := c.data.set a c.ac }.run code) := by
  have hAddress : (Int32.ofNat a + 0).toInt = a := by rw [Int32.add_zero, toInt_ofNat_of_lt ha]
  rw [step_eq h]
  exact execute_of_perform (show ac < 8 by decide)
    (perform_st (show ac < 8 by decide) (show gp < 8 by decide) ha hAddress)

theorem step_storeTemporary {depth : Nat} (hd : depth < 1024)
    (h : code[c.pc]? = some (Assembly.indexed .st ac (Code.temporary depth) mp)) :
    step (c.run code) =
      .ok .running ({ c.next with data := c.data.set (1023 - depth) c.ac }.run code) := by
  rw [step_eq h]
  exact execute_of_perform (show ac < 8 by decide)
    (perform_st (show ac < 8 by decide) (show mp < 8 by decide) (by omega) (toInt_temporary hd))

theorem step_loadTemporary {depth : Nat} (hd : depth < 1024)
    (h : code[c.pc]? = some (Assembly.indexed .ld ac1 (Code.temporary depth) mp)) :
    step (c.run code) =
      .ok .running ({ c.next with ac1 := c.data[1023 - depth] }.run code) := by
  rw [step_eq h]
  exact execute_of_perform (show ac1 < 8 by decide)
    (perform_ld (show ac1 < 8 by decide) (show mp < 8 by decide) (by omega) (toInt_temporary hd))

/-- The conditions of the jumps in generated code. -/
def condition? : Opcode → Option (Int32 → Bool)
  | .jlt => some (· < 0)
  | .jeq => some (· = 0)
  | _ => none

theorem step_jump {op : Opcode} {holds : Int32 → Bool} (hOp : condition? op = some holds)
    {d : Int32} {target : Nat} (hTarget : (c.pc + 1 : Nat) + d.toInt = target)
    (h : code[c.pc]? = some (Assembly.indexed op ac d pc)) :
    step (c.run code) =
      .ok .running ({ c with pc := if holds c.ac then target else c.pc + 1 }.run code) := by
  have hJump : ∀ condition : Bool, jumpIf condition (d + .ofNat (c.pc + 1)) (c.next.run code) =
      .ok () ({ c with pc := if condition then target else c.pc + 1 }.run code) := by
    intro condition
    rw [add_ofNat hTarget]
    cases condition with
    | false => rfl
    | true => rfl
  rw [step_eq h]
  cases op <;> cases hOp
  · exact bind_of_ok (hJump (c.ac < 0))
  · exact bind_of_ok (hJump (c.ac = 0))

theorem step_goto {d : Int32} {target : Nat} (hTarget : (c.pc + 1 : Nat) + d.toInt = target)
    (h : code[c.pc]? = some (Assembly.indexed .lda pc d pc)) :
    step (c.run code) = .ok .running ({ c with pc := target }.run code) := by
  have hAdd : d + .ofNat (c.pc + 1) = Int32.ofNat target := add_ofNat hTarget
  have hRun : ∀ w : Int32, w = .ofNat target → (do
      assign 7 w
      return Status.running : Tick Status) (c.next.run code) =
        .ok .running ({ c with pc := target }.run code) := by
    rintro w rfl
    rfl
  rw [step_eq h]
  exact hRun _ hAdd

theorem step_input {word : Int32} {rest : List Int32}
    (h : code[c.pc]? = some (Assembly.between .input ac 0 0)) (hInput : c.input = word :: rest) :
    step (c.run code) = .ok .running ({ c.next with ac := word, input := rest }.run code) := by
  obtain ⟨pc, ac, ac1, data, input, output⟩ := c
  obtain rfl : input = word :: rest := hInput
  rw [step_eq h]
  rfl

theorem step_input_exhausted (h : code[c.pc]? = some (Assembly.between .input ac 0 0))
    (hInput : c.input = []) :
    step (c.run code) = .error (.inputExhausted (.ofNat c.pc)) (c.next.run code) := by
  obtain ⟨pc, ac, ac1, data, input, output⟩ := c
  obtain rfl : input = [] := hInput
  rw [step_eq h]
  rfl

theorem step_output (h : code[c.pc]? = some (Assembly.between .output ac 0 0)) :
    step (c.run code) = .ok .running ({ c.next with output := c.output.push c.ac }.run code) := by
  rw [step_eq h]
  rfl

theorem step_halt (h : code[c.pc]? = some Instruction.halt) :
    step (c.run code) = .ok .halted (c.next.run code) := by
  rw [step_eq h]
  rfl

/-! ### Many steps -/

/-- `Goes n run after`: after `n` steps the machine is still running, and has become `after`. -/
inductive Goes : Nat → Run → Run → Prop
  | refl (run : Run) : Goes 0 run run
  | head {n : Nat} {run middle after : Run} (first : step run = .ok .running middle)
      (rest : Goes n middle after) : Goes (n + 1) run after

theorem Goes.single {run after : Run} (h : step run = .ok .running after) : Goes 1 run after :=
  .head h (.refl after)

theorem Goes.trans {m n : Nat} {run middle after : Run} (h : Goes m run middle)
    (h' : Goes n middle after) : Goes (m + n) run after := by
  induction h with
  | refl run => rwa [Nat.zero_add]
  | @head m run next middle first _ ih =>
    rw [Nat.add_right_comm]
    exact .head first (ih h')

/-- Steps after which the machine is still running come first in every run. -/
theorem steps_of_goes {n : Nat} {run after : Run} (h : Goes n run after) (limit left : Nat) :
    steps limit (n + left) run = steps limit left after := by
  induction h with
  | refl run => rw [Nat.zero_add]
  | @head n run next after first _ ih =>
    rw [Nat.add_right_comm, steps, bind_of_ok first]
    exact ih

/-- Fewer steps than these are not enough to stop the machine. -/
theorem steps_of_goes_lt {n : Nat} {run after : Run} (h : Goes n run after) (limit : Nat)
    {left : Nat} (hLeft : left ≤ n) : ∃ stopped, steps limit left run =
      .error (.stepLimit limit) stopped := by
  induction h generalizing left with
  | refl run =>
    obtain rfl : left = 0 := Nat.le_zero.mp hLeft
    exact ⟨run, rfl⟩
  | @head n run next after first _ ih =>
    cases left with
    | zero => exact ⟨run, rfl⟩
    | succ left =>
      obtain ⟨stopped, hStopped⟩ := ih (Nat.le_of_succ_le_succ hLeft)
      refine ⟨stopped, ?_⟩
      rw [steps, bind_of_ok first]
      exact hStopped

/-! ### The first two steps -/

/-- Behind the first instruction the top of the data memory is known. -/
def topKnown (input : List Int32) : Config where
  pc := 1
  ac := 0
  ac1 := 0
  data := Machine.fresh.data
  input := input
  output := #[]

/-- Behind the second instruction all data words are 0. -/
def cleared (input : List Int32) : Config where
  pc := 2
  ac := 0
  ac1 := 0
  data := Vector.replicate 1024 0
  input := input
  output := #[]

variable {symbols : Symbols} {p : Program} {machine : Machine}

theorem step_first (loaded : machine.Loaded (Assembly.program symbols p)) (input : List Int32) :
    step { machine, input } = .ok .running ((topKnown input).run machine.code) := by
  obtain ⟨holds, hData, hRegisters⟩ := loaded
  have hCode := holds 0 (Assembly.indexed .ld mp 0 ac) rfl
  obtain ⟨code, data, registers⟩ := machine
  obtain rfl : data = Machine.fresh.data := hData
  obtain rfl : registers = Machine.fresh.registers := hRegisters
  have hPc : (Run.mk ⟨code, Machine.fresh.data, Machine.fresh.registers⟩ input #[]).machine.pc =
      .ofNat 0 := rfl
  have hWord : Machine.fresh.data[0] = 1023 := by simp [Machine.fresh]
  have hTop : Machine.fresh.registers.set 7 (.ofNat 1) = #v[0, 0, 0, 0, 0, 0, 0, .ofNat 1] := rfl
  rw [step_of_fetch hPc hCode]
  refine (execute_of_perform (show mp < 8 by decide) (perform_ld (show mp < 8 by decide)
    (show ac < 8 by decide) (show 0 < 1024 by decide) rfl)).trans ?_
  show EStateM.Result.ok Status.running (Run.mk ⟨code, Machine.fresh.data,
    (Machine.fresh.registers.set 7 (.ofNat 1)).set 6 Machine.fresh.data[0]⟩ input #[]) = _
  rw [hWord, hTop]
  rfl

theorem step_second (loaded : machine.Loaded (Assembly.program symbols p)) (input : List Int32) :
    step ((topKnown input).run machine.code) =
      .ok .running ((cleared input).run machine.code) := by
  have hCode := loaded.holds 1 (Assembly.indexed .st ac 0 ac) rfl
  have hZero : Machine.fresh.data.set 0 0 = Vector.replicate 1024 0 := by simp [Machine.fresh]
  rw [step_eq hCode]
  refine (execute_of_perform (show ac < 8 by decide) (perform_st (show ac < 8 by decide)
    (show ac < 8 by decide) (show 0 < 1024 by decide) rfl)).trans ?_
  show EStateM.Result.ok Status.running (Run.mk ⟨machine.code, Machine.fresh.data.set 0 0,
    #v[0, 0, 0, 0, 0, 0, 1023, .ofNat 2]⟩ input #[]) = _
  rw [hZero]
  rfl

/-- **The first two steps** learn the top of the data memory and clear it. -/
theorem goes_cleared (loaded : machine.Loaded (Assembly.program symbols p)) (input : List Int32) :
    Goes 2 { machine, input } ((cleared input).run machine.code) :=
  .head (step_first loaded input) (.single (step_second loaded input))

end Tick

end Tiny
