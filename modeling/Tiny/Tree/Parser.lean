import Tiny.Decimal
import Tiny.Diagnostic
import Tiny.Token.Consumer
import Tiny.Tree

/-!
# From tokens to a program

The parser looks one token ahead and never goes back.  A token that does not fit is reported; where
a certain token was expected it is left in place, and where a statement or an expression should
start it is passed over.  So parsing always gives a program, and only a program without
diagnostics is one that was written.

The bounds in the definitions count tokens: no loop and no nesting goes on for longer than there
are tokens, so a bound above their number is never used up.
-/

namespace Tiny

/-- What the parser knows: the token it looks at, and what it reported. -/
structure Lookahead where
  current : Token := ⟨.endOfFile, "", 0⟩
  diagnostics : Diagnostics := #[]

/-- Work that reads a program. -/
abbrev Parser := StateT Lookahead Consumer

namespace Parser

/-- The token that the parser looks at. -/
def current : Parser Token := do
  return (← get).current

/-- Moves to the next token and gives the one passed. -/
def advance : Parser Token := do
  let next ← (Consumer.token : Consumer Token)
  let state ← get
  set { state with current := next }
  return state.current

/-- Reports a diagnostic. -/
def report (diagnostic : Diagnostic) : Parser Unit :=
  modify fun state => { state with diagnostics := state.diagnostics.push diagnostic }

/-- Reports a token that does not fit. -/
def unexpected : Parser Unit := do
  let token ← current
  if token.kind = .unknown then report ⟨.lexical, token.line, token.lexeme⟩
  else report ⟨.grammar, token.line, "unexpected token -> " ++ token.describe⟩

/-- Passes a token of the given kind.  Any other is reported and left in place. -/
def consume (kind : TokenKind) : Parser (Option Token) := do
  if (← current).kind = kind then
    return some (← advance)
  else
    unexpected
    return none

/-- Passes a name.  Anything else is reported, left in place and taken for the empty name. -/
def consumeName : Parser String := do
  let name ← consume .identifier
  return (name.map Token.lexeme).getD ""

/-- Gives up because a bound was too low. -/
def exhausted {α : Type} : Parser α :=
  fun _ => .fail (.outOfMemory .tree)

/-- The operators of terms. -/
def factorOperator? : TokenKind → Option Operator
  | .star => some .mul
  | .slash => some .div
  | _ => none

/-- The operators of sums. -/
def termOperator? : TokenKind → Option Operator
  | .plus => some .add
  | .hyphen => some .sub
  | _ => none

/-- The operators of comparisons. -/
def comparisonOperator? : TokenKind → Option Operator
  | .less => some .less
  | .equal => some .equal
  | _ => none

/-- The value of a number token, if it fits a machine word. -/
def constant? (token : Token) : Option Int32 :=
  (Decimal.readWord token.lexeme.toList).toOption

/-- A number, a name, or an expression in parentheses. -/
def factor (inner : Parser Expression) : Parser Expression := do
  let token ← current
  match token.kind with
  | .number =>
    let _ ← advance
    match constant? token with
    | some value => return .constant value token.line .unresolved
    | none =>
      report ⟨.grammar, token.line, "constant out of range -> " ++ token.describe⟩
      return .malformed token.line
  | .identifier =>
    let _ ← advance
    return .reference token.lexeme token.line .unresolved
  | .leftParen =>
    let _ ← advance
    let expression ← inner
    let _ ← consume .rightParen
    return expression
  | _ =>
    unexpected
    let _ ← advance
    return .malformed token.line

/-- Operands behind `lhs`, grouped to the left. -/
def chain (operator? : TokenKind → Option Operator) (operand : Parser Expression) :
    (bound : Nat) → (lhs : Expression) → Parser Expression
  | 0, _ => exhausted
  | bound + 1, lhs => do
    let token ← current
    match operator? token.kind with
    | none => return lhs
    | some op =>
      let _ ← advance
      let rhs ← operand
      chain operator? operand bound (.binary op lhs rhs token.line .unresolved)

/-- Factors with `*` and `/` between them. -/
def term (bound : Nat) (inner : Parser Expression) : Parser Expression := do
  let lhs ← factor inner
  chain factorOperator? (factor inner) bound lhs

/-- Terms with `+` and `-` between them. -/
def sum (bound : Nat) (inner : Parser Expression) : Parser Expression := do
  let lhs ← term bound inner
  chain termOperator? (term bound inner) bound lhs

/-- One or two sums with `<` or `=` between them. -/
def comparison (bound : Nat) (inner : Parser Expression) : Parser Expression := do
  let lhs ← sum bound inner
  let token ← current
  match comparisonOperator? token.kind with
  | none => return lhs
  | some op =>
    let _ ← advance
    let rhs ← sum bound inner
    return .binary op lhs rhs token.line .unresolved

/-- An expression. -/
def expression : (bound : Nat) → Parser Expression
  | 0 => exhausted
  | bound + 1 => comparison bound (expression bound)

/-- Whether a token ends a sequence of statements. -/
def endsSequence : TokenKind → Bool
  | .endOfFile => true
  | .keyword .kwEnd => true
  | .keyword .kwElse => true
  | .keyword .kwUntil => true
  | _ => false

/-- A statement, made of the given expressions and sequences.  A token that starts no statement is
reported and passed over. -/
def statement (expression : Parser Expression) (sequence : Parser (List Statement)) :
    Parser (Option Statement) := do
  let token ← current
  match token.kind with
  | .keyword .kwIf =>
    let _ ← advance
    let test ← expression
    let _ ← consume (.keyword .kwThen)
    let yes ← sequence
    if (← current).kind = .keyword .kwElse then
      let _ ← advance
      let no ← sequence
      let _ ← consume (.keyword .kwEnd)
      return some (.ifElse test yes no token.line)
    else
      let _ ← consume (.keyword .kwEnd)
      return some (.ifThen test yes token.line)
  | .keyword .kwRepeat =>
    let _ ← advance
    let body ← sequence
    let _ ← consume (.keyword .kwUntil)
    let test ← expression
    return some (.loop body test token.line)
  | .identifier =>
    let _ ← advance
    let _ ← consume .assign
    let value ← expression
    return some (.assign token.lexeme value token.line)
  | .keyword .kwRead =>
    let _ ← advance
    let name ← consumeName
    return some (.read name token.line)
  | .keyword .kwWrite =>
    let _ ← advance
    let value ← expression
    return some (.write value token.line)
  | _ =>
    unexpected
    let _ ← advance
    return none

/-- Statements behind those of `done`, each after a semicolon. -/
def more (one : Parser (Option Statement)) :
    (bound : Nat) → (done : List Statement) → Parser (List Statement)
  | 0, _ => exhausted
  | bound + 1, done => do
    if endsSequence (← current).kind then return done
    else
      let _ ← consume .semicolon
      let next ← one
      more one bound (done ++ next.toList)

/-- A sequence of statements. -/
def sequence : (bound : Nat) → Parser (List Statement)
  | 0 => exhausted
  | bound + 1 => do
    let one := statement (expression bound) (sequence bound)
    let first ← one
    more one bound first.toList

/-- A whole program. -/
def program (bound : Nat) : Parser Program := do
  let _ ← advance
  let statements ← sequence bound
  let token ← current
  if token.kind ≠ .endOfFile then
    report ⟨.grammar, token.line, "Code ends before file"⟩
  return statements

/-- Reads a program, with the diagnostics for it. -/
def parse (bound : Nat) : Consumer (Program × Diagnostics) := do
  let (statements, state) ← (program bound).run {}
  return (statements, state.diagnostics)

end Parser

namespace Scanner

/-- Reads a program off the scanner, with the diagnostics for it. -/
def program : Scan (Program × Diagnostics) := do
  let bound := (← get).tokenBound + 1
  (Parser.parse bound).runOn

end Scanner

end Tiny
