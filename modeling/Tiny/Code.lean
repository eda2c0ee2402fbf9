import Tiny.Emitter
import Tiny.Symbols
import Tiny.Tree

/-!
# Code for programs

The value of an expression is left in the accumulator.  While the right operand of an operation is
computed, the left one waits in a temporary; temporaries lie at the top of the data memory and grow
down, variables lie at the bottom by their location.
-/

namespace Tiny

namespace Code

open Register

/-- The location of a variable as an offset. -/
def locationOf (symbols : Symbols) (name : String) : Emit Int32 :=
  match symbols.location? name with
  | some location => return Int32.ofNat location
  | none => throw (.unknownSymbol name)

/-- The offset of a temporary below the top of the data memory. -/
def temporary (depth : Nat) : Int32 :=
  Int32.ofInt (-depth)

/-- Code for a comparison: leaves 1 if the jump is taken for the difference of the operands, and 0
otherwise. -/
def comparison (jump : Opcode) (note : String) : Emit Unit := do
  Emitter.placeRegisters .sub ac ac1 ac note
  Emitter.placeIndexed jump ac 2 pc "br if true"
  Emitter.placeIndexed .ldc ac 0 ac "false case"
  Emitter.placeIndexed .lda pc 1 pc "unconditional jmp"
  Emitter.placeIndexed .ldc ac 1 ac "true case"

/-- Code for an operator: the left operand is in the second accumulator, the right one in the
first. -/
def operator : Operator → Emit Unit
  | .add => Emitter.placeRegisters .add ac ac1 ac "op +"
  | .sub => Emitter.placeRegisters .sub ac ac1 ac "op -"
  | .mul => Emitter.placeRegisters .mul ac ac1 ac "op *"
  | .div => Emitter.placeRegisters .div ac ac1 ac "op /"
  | .less => comparison .jlt "op <"
  | .equal => comparison .jeq "op =="

/-- Code for an expression while `depth` temporaries are in use. -/
def expression (symbols : Symbols) (depth : Nat) : Expression → Emit Unit
  | .constant value _ _ => do
    Emitter.comment "-> Const"
    Emitter.placeIndexed .ldc ac value 0 "load const"
    Emitter.comment "<- Const"
  | .reference name _ _ => do
    Emitter.comment "-> Id"
    let location ← locationOf symbols name
    Emitter.placeIndexed .ld ac location gp "load id value"
    Emitter.comment "<- Id"
  | .binary op lhs rhs _ _ => do
    Emitter.comment "-> Op"
    expression symbols depth lhs
    Emitter.placeIndexed .st ac (temporary depth) mp "op: push left"
    expression symbols (depth + 1) rhs
    Emitter.placeIndexed .ld ac1 (temporary depth) mp "op: load left"
    operator op
    Emitter.comment "<- Op"
  | .malformed line => throw (.malformedTree line)

/-- Fills a reserved location with a jump to the current one. -/
def jumpHere (slot : Nat) (op : Opcode) (r : Nat) (note : String) : Emit Unit := do
  let here := (← get).location
  Emitter.patch slot
  Emitter.placeBranch op r here note
  Emitter.restore

mutual

/-- Code for a statement. -/
def statement (symbols : Symbols) : Statement → Emit Unit
  | .ifThen test yes _ => do
    Emitter.comment "-> if"
    expression symbols 0 test
    let toElse ← Emitter.reserve 1
    Emitter.comment "if: jump to else belongs here"
    statements symbols yes
    jumpHere toElse .jeq ac "if: jmp to else"
    Emitter.comment "<- if"
  | .ifElse test yes no _ => do
    Emitter.comment "-> if"
    expression symbols 0 test
    let toElse ← Emitter.reserve 1
    Emitter.comment "if: jump to else belongs here"
    statements symbols yes
    let toEnd ← Emitter.reserve 1
    Emitter.comment "if: jump to end belongs here"
    jumpHere toElse .jeq ac "if: jmp to else"
    statements symbols no
    jumpHere toEnd .lda pc "jmp to end"
    Emitter.comment "<- if"
  | .loop body test _ => do
    Emitter.comment "-> repeat"
    let top := (← get).location
    Emitter.comment "repeat: jump after body comes back here"
    statements symbols body
    expression symbols 0 test
    Emitter.placeBranch .jeq ac top "repeat: jmp back to body"
    Emitter.comment "<- repeat"
  | .assign name value _ => do
    Emitter.comment "-> assign"
    expression symbols 0 value
    let location ← locationOf symbols name
    Emitter.placeIndexed .st ac location gp "assign: store value"
    Emitter.comment "<- assign"
  | .read name _ => do
    Emitter.placeRegisters .input ac 0 0 "read integer value"
    let location ← locationOf symbols name
    Emitter.placeIndexed .st ac location gp "read: store value"
  | .write value _ => do
    expression symbols 0 value
    Emitter.placeRegisters .output ac 0 0 "write ac"

/-- Code for a sequence of statements. -/
def statements (symbols : Symbols) : List Statement → Emit Unit
  | [] => return ()
  | first :: rest => do
    statement symbols first
    statements symbols rest

end

/-- Code for a whole program: a prelude that sets up the memory, the statements, and a halt. -/
def program (symbols : Symbols) (fileName : String) (program : Program) : Emit Unit := do
  Emitter.comment "TINY Compilation to TM Code"
  Emitter.comment ("File: " ++ fileName)
  Emitter.comment "Standard prelude:"
  Emitter.placeIndexed .ld mp 0 ac "load maxaddress from location 0"
  Emitter.placeIndexed .st ac 0 ac "clear location 0"
  Emitter.comment "End of standard prelude."
  statements symbols program
  Emitter.comment "End of execution."
  Emitter.placeRegisters .halt 0 0 0 ""
  Emitter.finish

end Code

/-- Writes the code of a program to a sink.  Gives the sink, also when the code cannot be
finished. -/
def Program.generate (program : Program) (symbols : Symbols) (traceCode : Bool)
    (fileName : String) (sink : Sink) : Except Fault Unit × Sink :=
  match Code.program symbols fileName program { sink, traceCode } with
  | .ok _ emitter => (.ok (), emitter.sink)
  | .error fault emitter => (.error fault, emitter.sink)

end Tiny
