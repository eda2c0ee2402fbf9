import Tiny.Focus
import Tiny.Instruction
import Tiny.Sink

/-!
# Placing instructions

An emitter writes instructions to a sink, each with its location.  Locations can be reserved and
filled later: `reserve` passes over them, `patch` goes back to one and `restore` goes on behind
everything placed so far.  So the text is not in the order of the locations.
-/

namespace Tiny

/-- The state of placing instructions: the current location, the first location behind all that
were used, and the locations that are reserved and not filled. -/
structure Emitter where
  sink : Sink := {}
  traceCode : Bool := false
  location : Nat := 0
  highWater : Nat := 0
  reserved : List Nat := []

/-- Work on an emitter. -/
abbrev Emit := EStateM Fault Emitter

namespace Emitter

/-- The sink as a part of the emitter. -/
def sinkPart : Focus Emitter Sink where
  get := Emitter.sink
  set sink emitter := { emitter with sink }

/-- Writes to the sink. -/
def write (text : String) : Emit Unit :=
  sinkPart.on (Sink.write text)

/-- Writes a comment line, if the code is to be commented. -/
def comment (text : String) : Emit Unit := do
  if (← get).traceCode then write ("* " ++ text ++ "\n")

/-- The line of an instruction. -/
def lineText (location : Nat) (op : Opcode) (operands : Operands) (note : Option String) : String :=
  Text.alignRight 3 (toString location) ++ ":  " ++ instructionText op operands ++ " " ++
    (match note with
      | some note => "\t" ++ note
      | none => "") ++ "\n"

/-- Fills the current location and moves on. -/
def fill (emitter : Emitter) : Emitter :=
  { emitter with
    reserved := emitter.reserved.filter (· ≠ emitter.location)
    location := emitter.location + 1
    highWater := max emitter.highWater (emitter.location + 1) }

/-- Places an instruction at the current location. -/
def place (op : Opcode) (operands : Operands) (note : String) : Emit Unit := do
  let emitter ← get
  write (lineText emitter.location op operands (if emitter.traceCode then some note else none))
  modify fill

/-- Places an instruction between registers. -/
def placeRegisters (op : Opcode) (r s t : Nat) (note : String) : Emit Unit :=
  place op (.registers r s t) note

/-- Places an instruction with an offset from a base register. -/
def placeIndexed (op : Opcode) (r : Nat) (offset : Int32) (base : Nat) (note : String) :
    Emit Unit :=
  place op (.indexed r offset.toInt base) note

/-- A number of 64 bits read as a number with sign. -/
def signed (n : Nat) : Int :=
  if n < 9223372036854775808 then n else n - 18446744073709551616

/-- The offset to a target for an instruction at some location.  The machine has already moved
behind the instruction when it adds the offset. -/
def branchOffset (location target : Nat) : Int :=
  signed target - (location + 1)

/-- Places an instruction whose offset from the program counter leads to a target. -/
def placeBranch (op : Opcode) (r : Nat) (target : Nat) (note : String) : Emit Unit := do
  let offset := branchOffset (← get).location target
  if -2147483648 ≤ offset ∧ offset ≤ 2147483647 then
    placeIndexed op r (Int32.ofInt offset) Register.pc note
  else throw (.backpatch (.branchRange target))

/-- Passes over `count` locations, which are to be filled later, and gives the first one. -/
def reserve (count : Nat) : Emit Nat := do
  let emitter ← get
  set { emitter with
    reserved := emitter.reserved ++ (List.range count).map (emitter.location + ·)
    location := emitter.location + count
    highWater := max emitter.highWater (emitter.location + count) }
  return emitter.location

/-- Goes back to a reserved location. -/
def patch (location : Nat) : Emit Unit := do
  let emitter ← get
  if location ≤ emitter.highWater ∧ location ∈ emitter.reserved then
    set { emitter with location }
  else throw (.backpatch (.notReserved location))

/-- Goes on behind every location that was used. -/
def restore : Emit Unit :=
  modify fun emitter => { emitter with location := emitter.highWater }

/-- Asks that every reserved location was filled. -/
def finish : Emit Unit := do
  match (← get).reserved.min? with
  | some location => throw (.backpatch (.unpatched location))
  | none => return ()

end Emitter

end Tiny
