import Tiny.Fault
import Tiny.Tree

/-!
# Walks over a tree

A walk enters every node before its parts and leaves it after them, in source order, except that
the test of a loop comes after its body.  What a visitor returns when it leaves a node takes the
place of that node.  `recorder` is the visitor that writes down every call and, if asked to, stops
the walk at one of them.
-/

namespace Tiny

/-- What to do at the nodes of a tree. -/
structure Visitor (m : Type → Type) where
  enterStatement : Statement → m Unit
  leaveStatement : Statement → m Statement
  enterExpression : Expression → m Unit
  leaveExpression : Expression → m Expression

namespace Visitor

/-- The visitor that looks at nothing and changes nothing. -/
def idle {m : Type → Type} [Monad m] : Visitor m where
  enterStatement _ := pure ()
  leaveStatement statement := pure statement
  enterExpression _ := pure ()
  leaveExpression expression := pure expression

end Visitor

/-- Walks over an expression. -/
def Expression.walk {m : Type → Type} [Monad m] (visitor : Visitor m) :
    Expression → m Expression
  | .binary op lhs rhs line type => do
    visitor.enterExpression (.binary op lhs rhs line type)
    let lhs' ← lhs.walk visitor
    let rhs' ← rhs.walk visitor
    visitor.leaveExpression (.binary op lhs' rhs' line type)
  | leaf => do
    visitor.enterExpression leaf
    visitor.leaveExpression leaf

mutual

/-- Walks over a statement. -/
def Statement.walk {m : Type → Type} [Monad m] (visitor : Visitor m) :
    Statement → m Statement
  | .ifThen test yes line => do
    visitor.enterStatement (.ifThen test yes line)
    let test' ← test.walk visitor
    let yes' ← Program.walk visitor yes
    visitor.leaveStatement (.ifThen test' yes' line)
  | .ifElse test yes no line => do
    visitor.enterStatement (.ifElse test yes no line)
    let test' ← test.walk visitor
    let yes' ← Program.walk visitor yes
    let no' ← Program.walk visitor no
    visitor.leaveStatement (.ifElse test' yes' no' line)
  | .loop body test line => do
    visitor.enterStatement (.loop body test line)
    let body' ← Program.walk visitor body
    let test' ← test.walk visitor
    visitor.leaveStatement (.loop body' test' line)
  | .assign name value line => do
    visitor.enterStatement (.assign name value line)
    let value' ← value.walk visitor
    visitor.leaveStatement (.assign name value' line)
  | .read name line => do
    visitor.enterStatement (.read name line)
    visitor.leaveStatement (.read name line)
  | .write value line => do
    visitor.enterStatement (.write value line)
    let value' ← value.walk visitor
    visitor.leaveStatement (.write value' line)

/-- Walks over a sequence of statements. -/
def Program.walk {m : Type → Type} [Monad m] (visitor : Visitor m) :
    List Statement → m (List Statement)
  | [] => pure []
  | statement :: rest => do
    let statement' ← statement.walk visitor
    let rest' ← Program.walk visitor rest
    return statement' :: rest'

end

/-- A node in the notes of a recorder. -/
structure Mark where
  name : String
  line : Nat
deriving DecidableEq, Repr

/-- The mark of a statement. -/
def Statement.mark (statement : Statement) : Mark where
  name := match statement with
    | .ifThen .. | .ifElse .. => "If"
    | .loop .. => "Repeat"
    | .assign .. => "Assign"
    | .read .. => "Read"
    | .write .. => "Write"
  line := statement.line

/-- The mark of an expression. -/
def Expression.mark (expression : Expression) : Mark where
  name := match expression with
    | .binary op .. => op.symbol
    | .constant value .. => toString value.toInt
    | .reference name .. => name
    | .malformed _ => "?"
  line := expression.line

/-- A call of a visitor. -/
inductive Visit where
  | enter (node : Mark)
  | leave (node : Mark)
deriving DecidableEq, Repr

namespace Visit

/-- A call as text. -/
def describe : Visit → String
  | .enter node => "pre " ++ node.name ++ "@" ++ toString node.line
  | .leave node => "post " ++ node.name ++ "@" ++ toString node.line

end Visit

/-- Work that writes down visits. -/
abbrev Record := EStateM Fault (Array Visit)

namespace Record

/-- The fault that stops a walk. -/
def stopped : Fault := .backpatch (.other "walk stopped")

/-- Writes down a visit, and fails if it is number `stop`, counted from 0. -/
def note (stop : Option Nat) (visit : Visit) : Record Unit := do
  let visits ← get
  set (visits.push visit)
  if stop = some visits.size then throw stopped

/-- The visitor that writes down every call and fails at number `stop`. -/
def recorder (stop : Option Nat) : Visitor Record where
  enterStatement statement := note stop (.enter statement.mark)
  leaveStatement statement := do
    note stop (.leave statement.mark)
    return statement
  enterExpression expression := note stop (.enter expression.mark)
  leaveExpression expression := do
    note stop (.leave expression.mark)
    return expression

end Record

/-- The visits of a walk over a program that stops at call number `stop`, and the fault if it
did stop. -/
def Program.visits (stop : Option Nat) (program : Program) : Array Visit × Option Fault :=
  match Program.walk (Record.recorder stop) program #[] with
  | .ok _ visits => (visits, none)
  | .error fault visits => (visits, some fault)

end Tiny
