/-!
# Programs

The syntax trees of TINY.  Every node knows the line it comes from.  Expressions carry the type
found for them; a part of the source that could not be read as an expression leaves a malformed
node.
-/

namespace Tiny

/-- The type found for an expression, if one was. -/
inductive ValueType where
  | unresolved
  | integer
  | boolean
deriving DecidableEq, Repr

/-- The operators between two expressions. -/
inductive Operator where
  | add
  | sub
  | mul
  | div
  | less
  | equal
deriving DecidableEq, Repr

namespace Operator

/-- How an operator is written. -/
def symbol : Operator → String
  | .add => "+"
  | .sub => "-"
  | .mul => "*"
  | .div => "/"
  | .less => "<"
  | .equal => "="

/-- Whether an operator compares. -/
def isComparison : Operator → Bool
  | .less | .equal => true
  | _ => false

/-- The type of the values of an operator. -/
def resultType (op : Operator) : ValueType :=
  if op.isComparison then .boolean else .integer

end Operator

/-- Expressions. -/
inductive Expression where
  | binary (op : Operator) (lhs rhs : Expression) (line : Nat) (type : ValueType)
  | constant (value : Int32) (line : Nat) (type : ValueType)
  | reference (name : String) (line : Nat) (type : ValueType)
  | malformed (line : Nat)
deriving DecidableEq, Repr

namespace Expression

/-- The line of an expression; that of an operation is the line of its operator. -/
def line : Expression → Nat
  | .binary _ _ _ line _ => line
  | .constant _ line _ => line
  | .reference _ line _ => line
  | .malformed line => line

/-- The type that an expression carries. -/
def type : Expression → ValueType
  | .binary _ _ _ _ type => type
  | .constant _ _ type => type
  | .reference _ _ type => type
  | .malformed _ => .unresolved

end Expression

/-- Statements. -/
inductive Statement where
  | ifThen (test : Expression) (yes : List Statement) (line : Nat)
  | ifElse (test : Expression) (yes no : List Statement) (line : Nat)
  /-- Runs the body, and again as long as the test is false. -/
  | loop (body : List Statement) (test : Expression) (line : Nat)
  | assign (name : String) (value : Expression) (line : Nat)
  | read (name : String) (line : Nat)
  | write (value : Expression) (line : Nat)
deriving BEq, Repr

namespace Statement

/-- The line on which a statement starts. -/
def line : Statement → Nat
  | .ifThen _ _ line => line
  | .ifElse _ _ _ line => line
  | .loop _ _ line => line
  | .assign _ _ line => line
  | .read _ line => line
  | .write _ line => line

/-- Induction over statements together with their sequences. -/
theorem ind {P : Statement → Prop} {Q : List Statement → Prop}
    (ifThen : ∀ test yes line, Q yes → P (.ifThen test yes line))
    (ifElse : ∀ test yes no line, Q yes → Q no → P (.ifElse test yes no line))
    (loop : ∀ body test line, Q body → P (.loop body test line))
    (assign : ∀ name value line, P (.assign name value line))
    (read : ∀ name line, P (.read name line))
    (write : ∀ value line, P (.write value line))
    (nil : Q []) (cons : ∀ head tail, P head → Q tail → Q (head :: tail)) :
    (∀ statement, P statement) ∧ ∀ statements, Q statements :=
  have one : ∀ statement, P statement :=
    @Statement.rec P Q ifThen ifElse loop assign read write nil cons
  ⟨one, fun statements => by
    induction statements with
    | nil => exact nil
    | cons head tail ih => exact cons head tail (one head) ih⟩

end Statement

/-- A program is a sequence of statements. -/
abbrev Program := List Statement

end Tiny
