import Tiny.Instruction.Listing

/-!
# The TM machine

The machine has memories for instructions and for data and eight registers, the last of which holds
the location of the next instruction.  Words have 32 bits and wrap around.  A step moves the program
counter on before it looks at the operands of an instruction, so a step that fails has moved it too,
unless there was no instruction to fetch.
-/

namespace Tiny

/-- What stops the machine, or keeps it from starting. -/
inductive MachineFault where
  | listing (cause : ListingFault)
  | outsideCode (location : Nat)
  | fetch (location : Int32)
  | noRegister (r : Int32)
  | dataRange (address : Int32)
  | inputExhausted (location : Int32)
  | divisionByZero (location : Int32)
  | stepLimit (limit : Nat)
deriving DecidableEq, Repr

namespace MachineFault

/-- The wording of a fault. -/
def message : MachineFault → String
  | .listing cause => cause.message
  | .outsideCode location =>
    "location " ++ toString location ++ " is outside instruction memory"
  | .fetch location =>
    "instruction memory access out of range: " ++ toString location.toInt
  | .noRegister r => "register " ++ toString r.toInt ++ " does not exist"
  | .dataRange address => "data memory access out of range: " ++ toString address.toInt
  | .inputExhausted location => "input exhausted at location " ++ toString location.toInt
  | .divisionByZero location => "division by zero at location " ++ toString location.toInt
  | .stepLimit limit => "step limit of " ++ toString limit ++ " exceeded"

end MachineFault

/-- A machine. -/
structure Machine where
  code : Vector Instruction 1024
  data : Vector Int32 1024
  registers : Vector Int32 8

namespace Machine

/-- A machine before it starts.  The first data word holds the highest data address. -/
def fresh : Machine where
  code := Vector.replicate 1024 Instruction.halt
  data := (Vector.replicate 1024 0).set 0 1023
  registers := Vector.replicate 8 0

/-- Puts an instruction at a location. -/
def place (machine : Machine) (location : Nat) (instruction : Instruction) :
    Except MachineFault Machine :=
  if h : location < 1024 then .ok { machine with code := machine.code.set location instruction }
  else .error (.outsideCode location)

/-- Puts instructions at their locations; a later one replaces an earlier one. -/
def placeAll : List (Nat × Instruction) → Machine → Except MachineFault Machine
  | [], machine => .ok machine
  | (location, instruction) :: rest, machine =>
    match machine.place location instruction with
    | .ok placed => placeAll rest placed
    | .error fault => .error fault

/-- The machine for a listing. -/
def load (text : String) : Except MachineFault Machine :=
  match Listing.read text with
  | .ok instructions => placeAll instructions fresh
  | .error cause => .error (.listing cause)

/-- The location of the next instruction. -/
def pc (machine : Machine) : Int32 :=
  machine.registers[7]

/-- The instruction at a location. -/
def fetch? (machine : Machine) (location : Int32) : Option Instruction :=
  if 0 ≤ location then machine.code[location.toInt.toNat]? else none

/-- Changes a register. -/
def setRegister (machine : Machine) (r : Fin 8) (value : Int32) : Machine :=
  { machine with registers := machine.registers.set r value }

/-- Changes a data word. -/
def setData (machine : Machine) (address : Fin 1024) (value : Int32) : Machine :=
  { machine with data := machine.data.set address value }

end Machine

/-- A machine at work, with the input to come and the output so far. -/
structure Run where
  machine : Machine
  input : List Int32 := []
  output : Array Int32 := #[]

/-- Work of a machine. -/
abbrev Tick := EStateM MachineFault Run

/-- Whether the machine goes on after a step. -/
inductive Status where
  | running
  | halted
deriving DecidableEq, Repr

namespace Tick

/-- The register of an operand. -/
def register (r : Int32) : Tick (Fin 8) :=
  if h : 0 ≤ r.toInt ∧ r.toInt < 8 then return ⟨r.toInt.toNat, by omega⟩
  else throw (.noRegister r)

/-- The data word of an address. -/
def address (a : Int32) : Tick (Fin 1024) :=
  if h : 0 ≤ a.toInt ∧ a.toInt < 1024 then return ⟨a.toInt.toNat, by omega⟩
  else throw (.dataRange a)

/-- The value of a register. -/
def value (r : Fin 8) : Tick Int32 := do
  return (← get).machine.registers[r]

/-- The value of the register of an operand. -/
def operand (r : Int32) : Tick Int32 := do
  value (← register r)

/-- Changes a register. -/
def assign (r : Fin 8) (word : Int32) : Tick Unit :=
  modify fun run => { run with machine := run.machine.setRegister r word }

/-- Changes a data word. -/
def store (a : Fin 1024) (word : Int32) : Tick Unit :=
  modify fun run => { run with machine := run.machine.setData a word }

/-- Takes a word of input. -/
def readInput (here : Int32) : Tick Int32 := do
  let run ← get
  match run.input with
  | [] => throw (.inputExhausted here)
  | word :: rest =>
    set { run with input := rest }
    return word

/-- Gives a word of output. -/
def writeOutput (word : Int32) : Tick Unit :=
  modify fun run => { run with output := run.output.push word }

/-- The quotient of two words, rounded toward zero. -/
def quotient (here x y : Int32) : Tick Int32 :=
  if y = 0 then throw (.divisionByZero here) else return x / y

/-- The sum of an offset and a base register. -/
def indexed (offset base : Int32) : Tick Int32 := do
  return offset + (← operand base)

/-- Jumps to `target` if the condition holds. -/
def jumpIf (condition : Bool) (target : Int32) : Tick Unit :=
  if condition then assign 7 target else return ()

/-- The effect of an opcode on a register and two more operands.  The instruction was fetched from
location `here`, and the program counter is already behind it. -/
def perform (here : Int32) (op : Opcode) (r : Fin 8) (s t : Int32) : Tick Unit :=
  match op with
  | .halt => return ()
  | .input => do
    assign r (← readInput here)
  | .output => do
    writeOutput (← value r)
  | .add => do
    let x ← operand s
    let y ← operand t
    assign r (x + y)
  | .sub => do
    let x ← operand s
    let y ← operand t
    assign r (x - y)
  | .mul => do
    let x ← operand s
    let y ← operand t
    assign r (x * y)
  | .div => do
    let x ← operand s
    let y ← operand t
    assign r (← quotient here x y)
  | .ld => do
    let a ← address (← indexed s t)
    assign r (← get).machine.data[a]
  | .st => do
    let a ← address (← indexed s t)
    store a (← value r)
  | .lda => do
    assign r (← indexed s t)
  | .ldc => do
    let _ ← indexed s t
    assign r s
  | .jlt => do
    let m ← indexed s t
    jumpIf ((← value r) < 0) m
  | .jle => do
    let m ← indexed s t
    jumpIf ((← value r) ≤ 0) m
  | .jgt => do
    let m ← indexed s t
    jumpIf (0 < (← value r)) m
  | .jge => do
    let m ← indexed s t
    jumpIf (0 ≤ (← value r)) m
  | .jeq => do
    let m ← indexed s t
    jumpIf ((← value r) = 0) m
  | .jne => do
    let m ← indexed s t
    jumpIf ((← value r) ≠ 0) m

/-- Executes an instruction that was fetched from location `here`. -/
def execute (here : Int32) (instruction : Instruction) : Tick Status := do
  let r ← register instruction.r
  perform here instruction.op r instruction.s instruction.t
  return if instruction.op = .halt then .halted else .running

/-- Executes the next instruction. -/
def step : Tick Status := do
  let here := (← get).machine.pc
  match (← get).machine.fetch? here with
  | none => throw (.fetch here)
  | some instruction =>
    assign 7 (here + 1)
    execute here instruction

/-- Executes up to `left` instructions, until one halts the machine; `limit` is the number to
report when none does. -/
def steps (limit : Nat) : (left : Nat) → Tick Unit
  | 0 => throw (.stepLimit limit)
  | left + 1 => do
    match ← step with
    | .halted => return ()
    | .running => steps limit left

end Tick

namespace Machine

/-- Runs a machine on some input for at most `limit` steps.  Gives the output if the machine halts,
and the machine as it is then. -/
def run (machine : Machine) (input : List Int32) (limit : Nat) :
    Except MachineFault (Array Int32) × Machine :=
  match Tick.steps limit limit { machine, input } with
  | .ok _ after => (.ok after.output, after.machine)
  | .error fault after => (.error fault, after.machine)

end Machine

end Tiny
