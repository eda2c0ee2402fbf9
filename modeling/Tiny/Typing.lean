import Tiny.Diagnostic
import Tiny.Tree.Walk

/-!
# Types

Operands, assigned and written values are integers, and tests are Boolean.  Checking settles the
types of expressions from the leaves up and reports every place where this is violated.
-/

namespace Tiny

namespace Typing

/-- Work that reports violations. -/
abbrev Check := StateM Diagnostics

/-- Reports a violation. -/
def report (line : Nat) (message : String) : Check Unit :=
  modify fun diagnostics => diagnostics.push ⟨.typing, line, message⟩

/-- Asks for an expression of a certain type. -/
def require (expression : Expression) (type : ValueType) (message : String) : Check Unit :=
  if expression.type = type then pure () else report expression.line message

/-- Settles the type of an expression whose operands are settled. -/
def settle : Expression → Check Expression
  | .binary op lhs rhs line _ => do
    if lhs.type ≠ .integer ∨ rhs.type ≠ .integer then report line "Op applied to non-integer"
    return .binary op lhs rhs line op.resultType
  | .constant value line _ => return .constant value line .integer
  | .reference name line _ => return .reference name line .integer
  | .malformed line => return .malformed line

/-- Checks the expression of a statement whose expressions are settled. -/
def demand : Statement → Check Unit
  | .ifThen test _ _ => require test .boolean "if test is not Boolean"
  | .ifElse test _ _ _ => require test .boolean "if test is not Boolean"
  | .loop _ test _ => require test .boolean "repeat test is not Boolean"
  | .assign _ value _ => require value .integer "assignment of non-integer value"
  | .write value _ => require value .integer "write of non-integer value"
  | .read _ _ => pure ()

/-- The visitor that checks on leaving. -/
def checker : Visitor Check :=
  { Visitor.idle with
    leaveExpression := settle
    leaveStatement := fun statement => do
      demand statement
      return statement }

end Typing

/-- Checks a program: gives it with all types settled, and the violations found. -/
def Program.check (program : Program) : Program × Diagnostics :=
  (Program.walk Typing.checker program).run #[]

end Tiny
