import Tiny.Machine
import Tiny.Proofs.Peeling

/-!
# What a step of the machine can change

Any listing can be loaded, so a machine may meet any instruction: with operands that name no
register, with addresses outside the data memory, and with the program counter as a destination or
as a base.  Still a step changes little.  It moves the program counter on, and then it either fails
and changes nothing else, or has the one effect that its opcode is there for.

* `Refuses`, `Affects`: why an instruction can fail, and what it changes if it does not.
* `perform_cases`: every instruction does one of the two; it uses no register and no data word
  before it is known that there is one.
* `Run.Framed`: what follows for a step.
* `step_framed`: every step of every machine that can be reached is like that.
-/

namespace Tiny

/-! ### Operands -/

/-- A word is an index below `n`. -/
def Below (n : Nat) (word : Int32) : Prop :=
  0 ≤ word.toInt ∧ word.toInt < n

instance (n : Nat) (word : Int32) : Decidable (Below n word) :=
  inferInstanceAs (Decidable (_ ∧ _))

namespace Opcode

/-- Whether an opcode is there to put a word into its first register. -/
def setsRegister : Opcode → Bool
  | .input | .add | .sub | .mul | .div | .ld | .lda | .ldc => true
  | _ => false

/-- The condition of a jump on the word in its first register. -/
def condition? : Opcode → Option (Int32 → Bool)
  | .jlt => some (· < 0)
  | .jle => some (· ≤ 0)
  | .jgt => some (0 < ·)
  | .jge => some (0 ≤ ·)
  | .jeq => some (· = 0)
  | .jne => some (· ≠ 0)
  | _ => none

end Opcode

namespace Instruction

/-- The operands that have to name registers. -/
def registerOperands (i : Instruction) : List Int32 :=
  match i.op with
  | .halt | .input | .output => [i.r]
  | .add | .sub | .mul | .div => [i.r, i.s, i.t]
  | _ => [i.r, i.t]

end Instruction

namespace Machine

/-- The word in the register that an operand names, and 0 if there is none. -/
def word (machine : Machine) (r : Int32) : Int32 :=
  (machine.registers[r.toInt.toNat]?).getD 0

/-- The address that an offset and a base register amount to. -/
def address (machine : Machine) (i : Instruction) : Int32 :=
  i.s + machine.word i.t

/-- The machine behind the instruction that comes next.  The last register is the program
counter. -/
def passed (machine : Machine) : Machine :=
  machine.setRegister (Fin.last 7) (machine.pc + 1)

theorem setRegister_self (machine : Machine) (q : Fin 8) (word : Int32) :
    (machine.setRegister q word).registers.get q = word :=
  Vector.getElem_set_self q.isLt

theorem setRegister_of_ne (machine : Machine) {p q : Fin 8} (h : q ≠ p) (word : Int32) :
    (machine.setRegister p word).registers.get q = machine.registers.get q :=
  Vector.getElem_set_ne p.isLt q.isLt fun same => h (Fin.ext same.symm)

theorem pc_passed (machine : Machine) : machine.passed.pc = machine.pc + 1 :=
  machine.setRegister_self 7 _

end Machine

namespace Run

/-- The run behind the instruction that comes next. -/
def passed (run : Run) : Run :=
  { run with machine := run.machine.passed }

end Run

namespace Tick

variable {β : Type} {run : Run}

/-! ### Parts of an instruction -/

section Parts

variable {P : EStateM.Result MachineFault Run β → Prop}

/-- An operand that must name a register names one, or is refused. -/
theorem register_bind {r : Int32} {f : Fin 8 → Tick β}
    (hOk : ∀ q : Fin 8, (q : Int) = r.toInt → Below 8 r → P (f q run))
    (hError : ¬ Below 8 r → P (.error (.noRegister r) run)) : P ((register r >>= f) run) := by
  by_cases h : 0 ≤ r.toInt ∧ r.toInt < 8
  · have hRegister : register r run = .ok ⟨r.toInt.toNat, by omega⟩ run := by
      rw [register, dif_pos h]
      rfl
    rw [bind_of_ok hRegister]
    exact hOk _ (Int.toNat_of_nonneg h.1) h
  · have hRegister : register r run = .error (.noRegister r) run := by
      rw [register, dif_neg h]
      rfl
    rw [bind_of_error hRegister]
    exact hError h

/-- An address that must be that of a data word is one, or is refused. -/
theorem address_bind {a : Int32} {f : Fin 1024 → Tick β}
    (hOk : ∀ q : Fin 1024, (q : Int) = a.toInt → Below 1024 a → P (f q run))
    (hError : ¬ Below 1024 a → P (.error (.dataRange a) run)) : P ((address a >>= f) run) := by
  by_cases h : 0 ≤ a.toInt ∧ a.toInt < 1024
  · have hAddress : address a run = .ok ⟨a.toInt.toNat, by omega⟩ run := by
      rw [address, dif_pos h]
      rfl
    rw [bind_of_ok hAddress]
    exact hOk _ (Int.toNat_of_nonneg h.1) h
  · have hAddress : address a run = .error (.dataRange a) run := by
      rw [address, dif_neg h]
      rfl
    rw [bind_of_error hAddress]
    exact hError h

theorem word_eq {r : Int32} {q : Fin 8} (h : (q : Int) = r.toInt) :
    run.machine.word r = run.machine.registers.get q := by
  have hIndex : r.toInt.toNat = q := by omega
  rw [Machine.word, hIndex, Vector.getElem?_eq_getElem q.isLt]
  rfl

theorem operand_bind {r : Int32} {f : Int32 → Tick β}
    (hOk : Below 8 r → P (f (run.machine.word r) run))
    (hError : ¬ Below 8 r → P (.error (.noRegister r) run)) : P ((operand r >>= f) run) := by
  rw [operand, bind_assoc]
  refine register_bind (fun q hq h => ?_) hError
  rw [word_eq hq] at hOk
  exact hOk h

theorem indexed_bind {i : Instruction} {f : Int32 → Tick β}
    (hOk : Below 8 i.t → P (f (run.machine.address i) run))
    (hError : ¬ Below 8 i.t → P (.error (.noRegister i.t) run)) :
    P ((indexed i.s i.t >>= f) run) := by
  rw [indexed, bind_assoc]
  exact operand_bind hOk hError

end Parts

/-! ### Instructions -/

/-- All registers and the data word that an instruction asks for are there. -/
structure InRange (machine : Machine) (i : Instruction) : Prop where
  registers : ∀ r ∈ i.registerOperands, Below 8 r
  address : i.op.opClass = .registerMemory → Below 1024 (machine.address i)

/-- Why an instruction from location `here` can fail, once it was passed. -/
inductive Refuses (here : Int32) (run : Run) (i : Instruction) : MachineFault → Prop
  | noRegister {r : Int32} (member : r ∈ i.registerOperands) (absent : ¬ Below 8 r) :
      Refuses here run i (.noRegister r)
  | dataRange (hOp : i.op.opClass = .registerMemory)
      (absent : ¬ Below 1024 (run.machine.address i)) :
      Refuses here run i (.dataRange (run.machine.address i))
  | inputExhausted (inRange : InRange run.machine i) (hOp : i.op = .input)
      (hInput : run.input = []) : Refuses here run i (.inputExhausted here)
  | divisionByZero (inRange : InRange run.machine i) (hOp : i.op = .div)
      (hZero : run.machine.word i.t = 0) : Refuses here run i (.divisionByZero here)

/-- What an instruction can change, once it was passed. -/
inductive Affects (run : Run) (i : Instruction) : Run → Prop
  | halts (hOp : i.op = .halt) : Affects run i run
  | reads {word : Int32} {rest : List Int32} {q : Fin 8} (hOp : i.op = .input)
      (hInput : run.input = word :: rest) (hq : (q : Int) = i.r.toInt) :
      Affects run i { run with machine := run.machine.setRegister q word, input := rest }
  | writes (hOp : i.op = .output) :
      Affects run i { run with output := run.output.push (run.machine.word i.r) }
  | sets (word : Int32) {q : Fin 8} (hOp : i.op.setsRegister = true)
      (hq : (q : Int) = i.r.toInt) :
      Affects run i { run with machine := run.machine.setRegister q word }
  | stores {a : Fin 1024} (hOp : i.op = .st) (ha : (a : Int) = (run.machine.address i).toInt) :
      Affects run i { run with machine := run.machine.setData a (run.machine.word i.r) }
  | jumps {condition : Int32 → Bool} (hOp : i.op.condition? = some condition)
      (taken : condition (run.machine.word i.r) = true) :
      Affects run i { run with machine := run.machine.setRegister 7 (run.machine.address i) }
  | stays {condition : Int32 → Bool} (hOp : i.op.condition? = some condition)
      (missed : condition (run.machine.word i.r) = false) : Affects run i run

/-- What an instruction can lead to, once it was passed: it fails and changes nothing, or it asks
only for what is there and has its effect. -/
inductive Performs (here : Int32) (run : Run) (i : Instruction) :
    EStateM.Result MachineFault Run Unit → Prop
  | refused {fault : MachineFault} (refuses : Refuses here run i fault) :
      Performs here run i (.error fault run)
  | done {after : Run} (inRange : InRange run.machine i) (affects : Affects run i after) :
      Performs here run i (.ok () after)

section Instructions

variable {here : Int32} {i : Instruction} {q : Fin 8}

theorem inRange_of_class (h : ∀ r ∈ i.registerOperands, Below 8 r)
    (hClass : i.op.opClass ≠ .registerMemory) (machine : Machine) : InRange machine i :=
  ⟨h, fun hMemory => absurd hMemory hClass⟩

/-- Instructions that look at two more registers. -/
theorem performs_registers (hr : Below 8 i.r) (hOperands : i.registerOperands = [i.r, i.s, i.t])
    (hClass : i.op.opClass ≠ .registerMemory) {f : Int32 → Int32 → Tick Unit}
    (h : InRange run.machine i →
      Performs here run i (f (run.machine.word i.s) (run.machine.word i.t) run)) :
    Performs here run i ((do
      let x ← operand i.s
      let y ← operand i.t
      f x y : Tick Unit) run) := by
  refine operand_bind (fun hs => operand_bind (fun ht => h ?_) fun absent => ?_) fun absent => ?_
  · exact inRange_of_class (by simp [hOperands, hr, hs, ht]) hClass _
  · exact .refused (.noRegister (by simp [hOperands]) absent)
  · exact .refused (.noRegister (by simp [hOperands]) absent)

/-- Instructions that compute a word from the words in two registers. -/
theorem performs_combine (hq : (q : Int) = i.r.toInt) (hr : Below 8 i.r)
    (hOperands : i.registerOperands = [i.r, i.s, i.t]) (hOp : i.op.setsRegister = true)
    (hClass : i.op.opClass ≠ .registerMemory) (f : Int32 → Int32 → Int32) :
    Performs here run i ((do
      let x ← operand i.s
      let y ← operand i.t
      assign q (f x y) : Tick Unit) run) :=
  performs_registers hr hOperands hClass fun inRange => .done inRange (.sets _ hOp hq)

theorem performs_div (hq : (q : Int) = i.r.toInt) (hr : Below 8 i.r)
    (hOperands : i.registerOperands = [i.r, i.s, i.t]) (hOp : i.op = .div) :
    Performs here run i ((do
      let x ← operand i.s
      let y ← operand i.t
      assign q (← quotient here x y) : Tick Unit) run) := by
  refine performs_registers hr hOperands (by rw [hOp]; decide) fun inRange => ?_
  by_cases hZero : run.machine.word i.t = 0
  · have hQuotient : quotient here (run.machine.word i.s) (run.machine.word i.t) run =
        .error (.divisionByZero here) run := by
      rw [quotient, if_pos hZero]
      rfl
    rw [bind_of_error hQuotient]
    exact .refused (.divisionByZero inRange hOp hZero)
  · have hQuotient : quotient here (run.machine.word i.s) (run.machine.word i.t) run =
        .ok (run.machine.word i.s / run.machine.word i.t) run := by
      rw [quotient, if_neg hZero]
      rfl
    rw [bind_of_ok hQuotient]
    exact .done inRange (.sets _ (by rw [hOp]; rfl) hq)

/-- Instructions that look at a base register and go on with an address. -/
theorem performs_indexed (hr : Below 8 i.r) (hOperands : i.registerOperands = [i.r, i.t])
    {f : Int32 → Tick Unit}
    (h : (∀ r ∈ i.registerOperands, Below 8 r) →
      Performs here run i (f (run.machine.address i) run)) :
    Performs here run i ((indexed i.s i.t >>= f) run) := by
  refine indexed_bind (fun ht => h ?_) fun absent => ?_
  · simp [hOperands, hr, ht]
  · exact .refused (.noRegister (by simp [hOperands]) absent)

/-- Instructions that put the address into a register, or a word that does not depend on it. -/
theorem performs_load (hq : (q : Int) = i.r.toInt) (hr : Below 8 i.r)
    (hOperands : i.registerOperands = [i.r, i.t]) (hOp : i.op.setsRegister = true)
    (hClass : i.op.opClass ≠ .registerMemory) (f : Int32 → Int32) :
    Performs here run i ((do
      let m ← indexed i.s i.t
      assign q (f m) : Tick Unit) run) :=
  performs_indexed hr hOperands fun hRegisters =>
    .done (inRange_of_class hRegisters hClass _) (.sets _ hOp hq)

theorem performs_jump (hq : (q : Int) = i.r.toInt) (hr : Below 8 i.r)
    (hOperands : i.registerOperands = [i.r, i.t]) (hClass : i.op.opClass ≠ .registerMemory)
    {condition : Int32 → Bool} (hOp : i.op.condition? = some condition) :
    Performs here run i ((do
      let m ← indexed i.s i.t
      jumpIf (condition (← value q)) m : Tick Unit) run) := by
  refine performs_indexed hr hOperands fun hRegisters => ?_
  have inRange := inRange_of_class hRegisters hClass run.machine
  show Performs here run i (jumpIf (condition (run.machine.registers.get q)) _ run)
  rw [← word_eq hq]
  cases hTaken : condition (run.machine.word i.r) with
  | true => exact .done inRange (.jumps hOp hTaken)
  | false => exact .done inRange (.stays hOp hTaken)

/-- Instructions that look at a data word, or change it. -/
theorem performs_memory (hr : Below 8 i.r) (hOperands : i.registerOperands = [i.r, i.t])
    (hClass : i.op.opClass = .registerMemory) {f : Fin 1024 → Tick Unit}
    (h : ∀ a : Fin 1024, (a : Int) = (run.machine.address i).toInt → InRange run.machine i →
      Performs here run i (f a run)) :
    Performs here run i ((do
      let m ← indexed i.s i.t
      let a ← address m
      f a : Tick Unit) run) := by
  refine performs_indexed hr hOperands fun hRegisters => ?_
  refine address_bind (fun a ha inside => ?_) fun absent => .refused (.dataRange hClass absent)
  exact h a ha ⟨hRegisters, fun _ => inside⟩

/-- **What an instruction can do.** -/
theorem perform_cases (hq : (q : Int) = i.r.toInt) (hr : Below 8 i.r) :
    Performs here run i (perform here i.op q i.s i.t run) := by
  have alone : i.registerOperands = [i.r] → i.op.opClass ≠ .registerMemory →
      InRange run.machine i := by
    intro hOperands hClass
    exact inRange_of_class (by simp [hOperands, hr]) hClass _
  obtain ⟨op, r, s, t⟩ := i
  cases op with
  | halt => exact .done (alone rfl nofun) (.halts rfl)
  | input =>
    have inRange := alone rfl nofun
    obtain ⟨machine, input, output⟩ := run
    cases input with
    | nil => exact .refused (.inputExhausted inRange rfl rfl)
    | cons word rest => exact .done inRange (.reads rfl rfl hq)
  | output =>
    show Performs here run _ (writeOutput (run.machine.registers.get q) run)
    rw [← word_eq hq]
    exact .done (alone rfl nofun) (.writes rfl)
  | add => exact performs_combine hq hr rfl rfl nofun (· + ·)
  | sub => exact performs_combine hq hr rfl rfl nofun (· - ·)
  | mul => exact performs_combine hq hr rfl rfl nofun (· * ·)
  | div => exact performs_div hq hr rfl rfl
  | ld => exact performs_memory hr rfl rfl fun a _ inRange => .done inRange (.sets _ rfl hq)
  | st =>
    refine performs_memory hr rfl rfl fun a ha inRange => ?_
    show Performs here run _ (store a (run.machine.registers.get q) run)
    rw [← word_eq hq]
    exact .done inRange (.stores rfl ha)
  | lda => exact performs_load hq hr rfl rfl nofun id
  | ldc => exact performs_load hq hr rfl rfl nofun fun _ => s
  | jlt => exact performs_jump hq hr rfl nofun rfl
  | jle => exact performs_jump hq hr rfl nofun rfl
  | jgt => exact performs_jump hq hr rfl nofun rfl
  | jge => exact performs_jump hq hr rfl nofun rfl
  | jeq => exact performs_jump hq hr rfl nofun rfl
  | jne => exact performs_jump hq hr rfl nofun rfl

end Instructions

/-! ### Steps -/

theorem fetch?_eq_none_iff {machine : Machine} {l : Int32} :
    machine.fetch? l = none ↔ ¬ Below 1024 l := by
  have hZero : 0 ≤ l ↔ 0 ≤ l.toInt := Int32.le_iff_toInt_le
  rw [Machine.fetch?, Below]
  by_cases hPos : 0 ≤ l
  · rw [if_pos hPos, Vector.getElem?_eq_none_iff]
    rw [hZero] at hPos
    omega
  · rw [if_neg hPos]
    exact iff_of_true rfl fun h => hPos (hZero.mpr h.1)

/-- What a step can lead to. -/
inductive Steps (run : Run) : EStateM.Result MachineFault Run Status → Prop
  | outside (absent : ¬ Below 1024 run.machine.pc) :
      Steps run (.error (.fetch run.machine.pc) run)
  | refused {i : Instruction} {fault : MachineFault}
      (hFetch : run.machine.fetch? run.machine.pc = some i)
      (refuses : Refuses run.machine.pc run.passed i fault) : Steps run (.error fault run.passed)
  | done {i : Instruction} {status : Status} {after : Run}
      (hFetch : run.machine.fetch? run.machine.pc = some i)
      (inRange : InRange run.passed.machine i) (affects : Affects run.passed i after) :
      Steps run (.ok status after)

theorem mem_registerOperands (i : Instruction) : i.r ∈ i.registerOperands := by
  unfold Instruction.registerOperands
  split <;> exact List.mem_cons_self

/-- **What a step can do.** -/
theorem step_cases (run : Run) : Steps run (step run) := by
  rw [step, get_bind, get_bind]
  cases hFetch : run.machine.fetch? run.machine.pc with
  | none => exact .outside (fetch?_eq_none_iff.mp hFetch)
  | some i =>
    show Steps run (execute run.machine.pc i run.passed)
    rw [execute]
    refine register_bind (fun q hq hr => ?_) fun absent =>
      .refused hFetch (.noRegister (mem_registerOperands i) absent)
    have hPerform := @perform_cases run.passed run.machine.pc i q hq hr
    generalize hResult : perform run.machine.pc i.op q i.s i.t run.passed = result at hPerform
    cases hPerform with
    | refused refuses =>
      rw [bind_of_error hResult]
      exact .refused hFetch refuses
    | done inRange affects =>
      rw [bind_of_ok hResult]
      exact .done hFetch inRange affects

end Tick

namespace Run

open Tick

/-- The run after a step, whether the step fails or not. -/
def next (run : Run) : Run :=
  match step run with
  | .ok _ after => after
  | .error _ after => after

/-- What a step that does not fail can change, if it executes the instruction `i`. -/
structure Changes (i : Instruction) (run after : Run) : Prop where
  input : after.input = run.input ∨ i.op = .input ∧ ∃ word, run.input = word :: after.input
  output : after.output = run.output ∨
    i.op = .output ∧ ∃ word, after.output = run.output.push word
  data : after.machine.data = run.machine.data ∨
    i.op = .st ∧ ∃ a word, after.machine.data = (run.machine.setData a word).data
  registers : ∀ q : Fin 8, q ≠ 7 → after.machine.registers.get q ≠ run.machine.registers.get q →
    i.op.setsRegister = true ∧ (q : Int) = i.r.toInt
  /-- The program counter moves on, or is set as a register, or the instruction is a jump and its
  condition holds. -/
  pc : after.machine.pc = run.machine.pc + 1 ∨
    (i.op.setsRegister = true ∧ i.r.toInt = 7) ∨
    ∃ condition, i.op.condition? = some condition ∧
      condition (run.passed.machine.word i.r) = true

/-- A step uses only what is there, leaves the code as it is, changes only the program counter if
it fails, and otherwise only what its opcode is there for. -/
structure Framed (run : Run) : Prop where
  code : run.next.machine.code = run.machine.code
  fetched : (∃ i, run.machine.fetch? run.machine.pc = some i) ↔ Below 1024 run.machine.pc
  /-- Without an instruction to fetch, nothing at all changes. -/
  outside : ¬ Below 1024 run.machine.pc → step run = .error (.fetch run.machine.pc) run
  /-- A register or a data word that is not there is refused. -/
  guarded : ∀ i, run.machine.fetch? run.machine.pc = some i →
    ¬ InRange run.passed.machine i → ∃ fault, step run = .error fault run.passed ∧
      ((∃ r ∈ i.registerOperands, ¬ Below 8 r ∧ fault = .noRegister r) ∨
        i.op.opClass = .registerMemory ∧ ¬ Below 1024 (run.passed.machine.address i) ∧
          fault = .dataRange (run.passed.machine.address i))
  failed : ∀ fault after, step run = .error fault after → Below 1024 run.machine.pc →
    after = run.passed
  succeeded : ∀ status after, step run = .ok status after →
    ∃ i, run.machine.fetch? run.machine.pc = some i ∧ InRange run.passed.machine i ∧
      Changes i run after

variable {run after : Run} {i : Instruction}

theorem Changes.of_passed : Changes i run run.passed where
  input := .inl rfl
  output := .inl rfl
  data := .inl rfl
  registers := fun _ hq changed => absurd (run.machine.setRegister_of_ne hq _) changed
  pc := .inl run.machine.pc_passed

/-- A register that is set is the only one to change, besides the program counter. -/
theorem Changes.set {p : Fin 8} {word : Int32}
    (hOther : p ≠ 7 → i.op.setsRegister = true ∧ (p : Int) = i.r.toInt)
    (hPc : p = 7 → (i.op.setsRegister = true ∧ i.r.toInt = 7) ∨
      ∃ condition, i.op.condition? = some condition ∧
        condition (run.passed.machine.word i.r) = true) :
    Changes i run { run.passed with machine := run.passed.machine.setRegister p word } where
  input := .inl rfl
  output := .inl rfl
  data := .inl rfl
  registers := by
    intro q hq changed
    by_cases hp : q = p
    · subst hp
      exact hOther hq
    · rw [run.passed.machine.setRegister_of_ne hp] at changed
      exact absurd (run.machine.setRegister_of_ne hq _) changed
  pc := by
    by_cases hp : p = 7
    · exact .inr (hPc hp)
    · have hSame := run.passed.machine.setRegister_of_ne (Ne.symm hp) word
      exact .inl (hSame.trans run.machine.pc_passed)

theorem Changes.of_sets {p : Fin 8} {word : Int32} (hOp : i.op.setsRegister = true)
    (hp : (p : Int) = i.r.toInt) :
    Changes i run { run.passed with machine := run.passed.machine.setRegister p word } := by
  refine .set (fun _ => ⟨hOp, hp⟩) ?_
  rintro rfl
  exact .inl ⟨hOp, hp.symm⟩

/-- **An instruction changes only what its opcode is there for.** -/
theorem changes_of_affects (h : Affects run.passed i after) : Changes i run after := by
  cases h with
  | halts hOp => exact .of_passed
  | @reads word rest q hOp hInput hq =>
    have changes := @Changes.of_sets run i q word (by rw [hOp]; rfl) hq
    exact { changes with input := .inr ⟨hOp, word, hInput⟩ }
  | writes hOp =>
    have changes : Changes i run run.passed := .of_passed
    exact { changes with output := .inr ⟨hOp, _, rfl⟩ }
  | sets word hOp hq => exact .of_sets hOp hq
  | stores hOp ha =>
    have changes : Changes i run run.passed := .of_passed
    exact { changes with data := .inr ⟨hOp, _, _, rfl⟩ }
  | jumps hOp taken =>
    exact .set (fun h => absurd rfl h) fun _ => .inr ⟨_, hOp, taken⟩
  | stays hOp missed => exact .of_passed

theorem code_of_affects (h : Affects run i after) : after.machine.code = run.machine.code := by
  cases h <;> rfl

theorem fetched_iff :
    (∃ i, run.machine.fetch? run.machine.pc = some i) ↔ Below 1024 run.machine.pc := by
  rw [← Option.isSome_iff_exists, Option.isSome_iff_ne_none, ne_eq, fetch?_eq_none_iff,
    Decidable.not_not]

/-- **A step is framed.** -/
theorem framed (run : Run) : run.Framed := by
  have hCases := step_cases run
  generalize hStep : step run = result at hCases
  cases hCases with
  | outside absent =>
    refine ⟨by rw [next, hStep], fetched_iff, fun _ => hStep, fun i hi => ?_,
      fun _ _ _ inside => absurd inside absent, fun status after h => ?_⟩
    · exact absurd (fetched_iff.mp ⟨i, hi⟩) absent
    · rw [hStep] at h
      cases h
  | @refused i fault hFetch refuses =>
    have inside := fetched_iff.mp ⟨i, hFetch⟩
    refine ⟨by rw [next, hStep]; rfl, fetched_iff, fun absent => absurd inside absent, ?_, ?_, ?_⟩
    · intro i' hi' hRange
      obtain rfl : i = i' := Option.some.inj (hFetch.symm.trans hi')
      refine ⟨fault, hStep, ?_⟩
      cases refuses with
      | noRegister member absent => exact .inl ⟨_, member, absent, rfl⟩
      | dataRange hOp absent => exact .inr ⟨hOp, absent, rfl⟩
      | inputExhausted inRange => exact absurd inRange hRange
      | divisionByZero inRange => exact absurd inRange hRange
    · intro fault' after h _
      rw [hStep] at h
      cases h
      rfl
    · intro status after h
      rw [hStep] at h
      cases h
  | @done i status after hFetch inRange affects =>
    have inside := fetched_iff.mp ⟨i, hFetch⟩
    refine ⟨?_, fetched_iff, fun absent => absurd inside absent, ?_, ?_, ?_⟩
    · have hCode : after.machine.code = run.passed.machine.code := code_of_affects affects
      rw [next, hStep]
      exact hCode
    · intro i' hi' hRange
      obtain rfl : i = i' := Option.some.inj (hFetch.symm.trans hi')
      exact absurd inRange hRange
    · intro fault after' h
      rw [hStep] at h
      cases h
    · intro status' after' h
      obtain ⟨rfl, rfl⟩ := ok_inj (hStep.symm.trans h)
      exact ⟨i, hFetch, inRange, changes_of_affects affects⟩

end Run

namespace Machine

/-- The machines that are reached from a listing: the one that is loaded, and from each of them the
one after a step, with any input and output, and also after a step that halts or fails. -/
inductive Reached (text : String) : Machine → Prop
  | loaded {machine : Machine} (h : load text = .ok machine) : Reached text machine
  | stepped {machine : Machine} (reached : Reached text machine) (input : List Int32)
      (output : Array Int32) : Reached text (Run.next ⟨machine, input, output⟩).machine

/-- The code stays as it was loaded. -/
theorem Reached.code {text : String} {machine : Machine} (reached : Reached text machine) :
    ∃ loaded, load text = .ok loaded ∧ machine.code = loaded.code := by
  induction reached with
  | loaded h => exact ⟨_, h, rfl⟩
  | stepped _ input output ih =>
    obtain ⟨loaded, hLoad, hCode⟩ := ih
    exact ⟨loaded, hLoad, (Run.framed _).code.trans hCode⟩

/-- **Every step is framed**, whatever listing the machine was loaded from and whatever steps led to
it, and the code stays as it was loaded. -/
theorem step_framed {text : String} {machine : Machine} (reached : Reached text machine)
    (input : List Int32) (output : Array Int32) :
    (∃ loaded, load text = .ok loaded ∧ machine.code = loaded.code) ∧
      Run.Framed ⟨machine, input, output⟩ :=
  ⟨reached.code, Run.framed _⟩

/-- A store to an address below the data memory. -/
def strayStore : Instruction := ⟨.st, 0, -5, 7⟩

/-- The machine for a listing with this store refuses it, and has moved on. -/
theorem step_framed_strayStore :
    ∃ machine, Reached " 0:   ST  0,-5(7)" machine ∧
      ∀ (input : List Int32) (output : Array Int32),
        Tick.step ⟨machine, input, output⟩ =
          .error (.dataRange (-4)) (Run.passed ⟨machine, input, output⟩) := by
  have hRead : Listing.read " 0:   ST  0,-5(7)" = .ok [(0, strayStore)] := rfl
  let machine : Machine := { fresh with code := fresh.code.set 0 strayStore }
  have hLoad : load " 0:   ST  0,-5(7)" = .ok machine := by
    rw [load, hRead]
    rfl
  have reached : Reached " 0:   ST  0,-5(7)" machine := .loaded hLoad
  refine ⟨machine, reached, fun input output => ?_⟩
  have hFetch : machine.fetch? machine.pc = some strayStore := by
    show (fresh.code.set 0 strayStore)[0]? = some strayStore
    rw [Vector.getElem?_set, if_pos rfl]
  have hAddress : machine.passed.address strayStore = -4 := by decide
  obtain ⟨-, framed⟩ := step_framed reached input output
  obtain ⟨fault, hStep, ⟨r, member, absent, -⟩ | ⟨-, -, hFault⟩⟩ :=
    framed.guarded strayStore hFetch fun inRange => absurd (inRange.address rfl) (by
      show ¬ Below 1024 (machine.passed.address strayStore)
      rw [hAddress]
      decide)
  · rcases List.mem_cons.mp member with rfl | member
    · exact absurd (by decide) absent
    · obtain rfl := List.mem_singleton.mp member
      exact absurd (by decide) absent
  · have hSame : fault = .dataRange (-4) := hFault.trans (congrArg _ hAddress)
    rw [hStep, hSame]

end Machine

end Tiny
