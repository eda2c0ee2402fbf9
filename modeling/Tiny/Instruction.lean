import Tiny.Text.Align

/-!
# Instructions of the TM machine

An instruction has an opcode and three operands.  Instructions between registers are written
`op r,s,t`; the others have an offset and a base register and are written `op r,s(t)`.
-/

namespace Tiny

/-- The opcodes. -/
inductive Opcode where
  | halt
  | input
  | output
  | add
  | sub
  | mul
  | div
  | ld
  | st
  | lda
  | ldc
  | jlt
  | jle
  | jgt
  | jge
  | jeq
  | jne
deriving DecidableEq, Repr

/-- What the operands of an opcode are. -/
inductive OpcodeClass where
  /-- Three registers. -/
  | registerOnly
  /-- A register and the address of a data word. -/
  | registerMemory
  /-- A register and a value, computed like an address. -/
  | registerAddress
deriving DecidableEq, Repr

namespace Opcode

/-- How an opcode is written. -/
def name : Opcode → String
  | .halt => "HALT"
  | .input => "IN"
  | .output => "OUT"
  | .add => "ADD"
  | .sub => "SUB"
  | .mul => "MUL"
  | .div => "DIV"
  | .ld => "LD"
  | .st => "ST"
  | .lda => "LDA"
  | .ldc => "LDC"
  | .jlt => "JLT"
  | .jle => "JLE"
  | .jgt => "JGT"
  | .jge => "JGE"
  | .jeq => "JEQ"
  | .jne => "JNE"

/-- All opcodes. -/
def all : List Opcode :=
  [.halt, .input, .output, .add, .sub, .mul, .div, .ld, .st, .lda, .ldc, .jlt, .jle, .jgt, .jge,
   .jeq, .jne]

/-- The opcode of a name in capital letters. -/
def ofName? (name : String) : Option Opcode :=
  all.find? fun op => op.name = name

/-- The complaint about a name that is no opcode. -/
def unknownMessage : String := "Matching variant not found"

/-- What the operands are. -/
def opClass : Opcode → OpcodeClass
  | .halt | .input | .output | .add | .sub | .mul | .div => .registerOnly
  | .ld | .st => .registerMemory
  | _ => .registerAddress

/-- Whether the last operand is written in parentheses. -/
def isIndexed (op : Opcode) : Bool :=
  op.opClass != .registerOnly

end Opcode

/-- Operands as they are written. -/
inductive Operands where
  | registers (r s t : Int)
  | indexed (r offset base : Int)
deriving DecidableEq, Repr

namespace Operands

/-- Operands as text. -/
def text : Operands → String
  | .registers r s t => toString r ++ "," ++ toString s ++ "," ++ toString t
  | .indexed r offset base => toString r ++ "," ++ toString offset ++ "(" ++ toString base ++ ")"

end Operands

/-- An opcode, in a column of its own, with operands. -/
def instructionText (op : Opcode) (operands : Operands) : String :=
  Text.alignRight 5 op.name ++ "  " ++ operands.text

/-- An instruction.  If the operands are not registers only, `s` is the offset and `t` the base
register. -/
structure Instruction where
  op : Opcode
  r : Int32
  s : Int32
  t : Int32
deriving DecidableEq, Repr

namespace Instruction

/-- The instruction that stops the machine. -/
def halt : Instruction := ⟨.halt, 0, 0, 0⟩

/-- The operands as they are written. -/
def operands (instruction : Instruction) : Operands :=
  if instruction.op.isIndexed then
    .indexed instruction.r.toInt instruction.s.toInt instruction.t.toInt
  else .registers instruction.r.toInt instruction.s.toInt instruction.t.toInt

/-- An instruction as text. -/
def text (instruction : Instruction) : String :=
  instructionText instruction.op instruction.operands

end Instruction

namespace Register

/-- The accumulator: values of expressions. -/
abbrev ac : Nat := 0

/-- The second accumulator: the left operand of an operation. -/
abbrev ac1 : Nat := 1

/-- The base of the variables. -/
abbrev gp : Nat := 5

/-- The top of the data memory; temporaries lie below it. -/
abbrev mp : Nat := 6

/-- The location of the next instruction. -/
abbrev pc : Nat := 7

end Register

end Tiny
