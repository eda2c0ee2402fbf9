import Tiny.Decimal
import Tiny.Instruction
import Tiny.Text.Blank
import Tiny.Text.Digit
import Tiny.Text.Lines
import Tiny.Text.Quoted

/-!
# Listings

A listing has an instruction on every line, behind its location: `12: ADD 0,1,0` or
`3: JEQ 0,-16(7)`.  Blanks may stand between all parts, and anything may follow the instruction.
Blank lines and lines that start with `*` are skipped.
-/

namespace Tiny

/-- What is wrong with a listing. -/
inductive ListingFault where
  | malformed (lineno : Nat) (line : String)
  | unknownOpcode (lineno : Nat) (name : String)
  | number (cause : NumberFault)
  | operandForm (lineno : Nat) (op : Opcode)
deriving DecidableEq, Repr

namespace ListingFault

/-- The wording of a fault. -/
def message : ListingFault → String
  | .malformed lineno line =>
    "line " ++ toString lineno ++ ": malformed instruction: " ++ Text.quote line
  | .unknownOpcode lineno name =>
    "line " ++ toString lineno ++ ": unknown opcode " ++ Text.quote name ++ ": " ++
      Opcode.unknownMessage
  | .number cause => cause.message
  | .operandForm lineno op =>
    "line " ++ toString lineno ++ ": wrong operand form for " ++ op.name

end ListingFault

namespace Listing

/-- The parts of a line with an instruction, as they are written. -/
structure Parts where
  location : List Char
  name : List Char
  r : List Char
  s : List Char
  t : List Char
  /-- Whether the last operand stands in parentheses. -/
  indexed : Bool
deriving DecidableEq, Repr

/-- Passes blanks. -/
def skipBlanks (text : List Char) : List Char :=
  text.dropWhile Text.isBlank

/-- Passes at least one blank. -/
def blanks? : List Char → Option (List Char)
  | c :: rest => if Text.isBlank c then some (skipBlanks rest) else none
  | [] => none

/-- Takes a longest run of characters that satisfy `p`, at least one. -/
def run? (p : Char → Bool) (text : List Char) : Option (List Char × List Char) :=
  match text.span p with
  | ([], _) => none
  | (run, rest) => some (run, rest)

/-- Passes one character, with blanks around it. -/
def mark? (c : Char) (text : List Char) : Option (List Char) :=
  match skipBlanks text with
  | d :: rest => if d = c then some (skipBlanks rest) else none
  | [] => none

/-- Takes digits with an optional minus sign. -/
def integer? : List Char → Option (List Char × List Char)
  | '-' :: rest => do
    let (digits, rest) ← run? Text.isDigit rest
    return ('-' :: digits, rest)
  | text => run? Text.isDigit text

/-- The letters of opcodes. -/
def isLetter (c : Char) : Bool :=
  ('A' ≤ c && c ≤ 'Z') || ('a' ≤ c && c ≤ 'z')

/-- Takes the last operand: a base register in parentheses, or a third register after a comma. -/
def lastOperand? (text : List Char) : Option (List Char × Bool) :=
  match mark? '(' text with
  | some rest => do
    let (base, rest) ← integer? rest
    let _ ← mark? ')' rest
    return (base, true)
  | none => do
    let rest ← mark? ',' text
    let (t, _) ← integer? rest
    return (t, false)

/-- Takes a line apart. -/
def parts? (line : List Char) : Option Parts := do
  let (location, rest) ← run? Text.isDigit (skipBlanks line)
  match rest with
  | ':' :: rest =>
    let (name, rest) ← run? isLetter (skipBlanks rest)
    let rest ← blanks? rest
    let (r, rest) ← integer? rest
    let rest ← mark? ',' rest
    let (s, rest) ← integer? rest
    let (t, indexed) ← lastOperand? rest
    return ⟨location, name, r, s, t, indexed⟩
  | _ => none

/-- An opcode in letters of any case. -/
def opcode? (name : List Char) : Option Opcode :=
  Opcode.ofName? (String.ofList (name.map Char.toUpper))

/-- A number in a listing. -/
def number {α : Type} (reading : Except NumberFault α) : Except ListingFault α :=
  reading.mapError .number

/-- The instruction of a line that was taken apart.  The opcode is looked at first, then the numbers
from the left; the form of the operands comes before the last number. -/
def Parts.instruction (lineno : Nat) (parts : Parts) :
    Except ListingFault (Nat × Instruction) :=
  match opcode? parts.name with
  | none => .error (.unknownOpcode lineno (String.ofList parts.name))
  | some op => do
    let location ← number (Decimal.readLocation parts.location)
    let r ← number (Decimal.readWord parts.r)
    let s ← number (Decimal.readWord parts.s)
    if op.isIndexed = parts.indexed then
      let t ← number (Decimal.readWord parts.t)
      return (location, ⟨op, r, s, t⟩)
    else throw (.operandForm lineno op)

/-- Whether a line holds no instruction: it is blank or a comment. -/
def isSkipped (line : List Char) : Bool :=
  match skipBlanks line with
  | [] => true
  | c :: _ => c == '*'

/-- The instruction on a line that holds one. -/
def readLine (lineno : Nat) (line : List Char) : Except ListingFault (Nat × Instruction) :=
  match parts? line with
  | none => .error (.malformed lineno (String.ofList line))
  | some parts => parts.instruction lineno

/-- The instructions on lines that are numbered from `lineno`.  The first fault stops. -/
def readLines (lineno : Nat) : List (List Char) → Except ListingFault (List (Nat × Instruction))
  | [] => .ok []
  | line :: rest =>
    if isSkipped line then readLines (lineno + 1) rest
    else do
      let first ← readLine lineno line
      let others ← readLines (lineno + 1) rest
      return first :: others

/-- The instructions of a listing with their locations, in the order of the lines. -/
def read (text : String) : Except ListingFault (List (Nat × Instruction)) :=
  readLines 1 (Text.lines text)

end Listing

end Tiny
