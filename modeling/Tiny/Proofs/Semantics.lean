import Tiny.Tree

/-!
# What programs mean

The meaning of a program, without any machine: a relation between a state before and the outcome,
which is a state after or a failure.  A program that goes on for ever has no outcome, and neither
has one with a malformed expression.

Words wrap around.  The values of comparisons are 1 and 0, and a test holds if its value is not 0.
-/

namespace Tiny

/-- Why a program fails. -/
inductive ProgramFailure where
  | divisionByZero
  | inputExhausted
deriving DecidableEq, Repr

/-- The value of every variable. -/
abbrev Store := String → Int32

namespace Store

/-- The store in which all variables are 0. -/
def zero : Store := fun _ => 0

/-- Changes a variable. -/
def set (store : Store) (name : String) (value : Int32) : Store :=
  fun other => if other = name then value else store other

end Store

/-- The value of an operation.  Division rounds toward zero; an operand is less than another if
their difference, which may wrap around, is negative. -/
def Operator.apply : Operator → Int32 → Int32 → Except ProgramFailure Int32
  | .add, a, b => .ok (a + b)
  | .sub, a, b => .ok (a - b)
  | .mul, a, b => .ok (a * b)
  | .div, a, b => if b = 0 then .error .divisionByZero else .ok (a / b)
  | .less, a, b => .ok (if a - b < 0 then 1 else 0)
  | .equal, a, b => .ok (if a = b then 1 else 0)

/-- The value of an expression.  The left operand comes before the right one. -/
inductive Expression.Evaluates (store : Store) : Expression → Except ProgramFailure Int32 → Prop
  | constant {value : Int32} {line : Nat} {type : ValueType} :
      Evaluates store (.constant value line type) (.ok value)
  | reference {name : String} {line : Nat} {type : ValueType} :
      Evaluates store (.reference name line type) (.ok (store name))
  | binary {op : Operator} {lhs rhs : Expression} {line : Nat} {type : ValueType} {a b : Int32}
      (left : Evaluates store lhs (.ok a)) (right : Evaluates store rhs (.ok b)) :
      Evaluates store (.binary op lhs rhs line type) (op.apply a b)
  | leftFails {op : Operator} {lhs rhs : Expression} {line : Nat} {type : ValueType}
      {failure : ProgramFailure} (left : Evaluates store lhs (.error failure)) :
      Evaluates store (.binary op lhs rhs line type) (.error failure)
  | rightFails {op : Operator} {lhs rhs : Expression} {line : Nat} {type : ValueType} {a : Int32}
      {failure : ProgramFailure} (left : Evaluates store lhs (.ok a))
      (right : Evaluates store rhs (.error failure)) :
      Evaluates store (.binary op lhs rhs line type) (.error failure)

/-- A program at work: its variables, the input to come and the output so far. -/
structure State where
  store : Store
  input : List Int32
  output : Array Int32

namespace State

/-- The state before a program starts. -/
def start (input : List Int32) : State where
  store := .zero
  input := input
  output := #[]

end State

mutual

/-- The outcome of a statement. -/
inductive Statement.Executes : Statement → State → Except ProgramFailure State → Prop
  | ifThenTrue {test : Expression} {yes : List Statement} {line : Nat} {state : State}
      {value : Int32} {outcome : Except ProgramFailure State}
      (holds : test.Evaluates state.store (.ok value)) (hValue : value ≠ 0)
      (rest : Program.Executes yes state outcome) :
      Statement.Executes (.ifThen test yes line) state outcome
  | ifThenFalse {test : Expression} {yes : List Statement} {line : Nat} {state : State}
      (fails : test.Evaluates state.store (.ok 0)) :
      Statement.Executes (.ifThen test yes line) state (.ok state)
  | ifThenStops {test : Expression} {yes : List Statement} {line : Nat} {state : State}
      {failure : ProgramFailure} (stops : test.Evaluates state.store (.error failure)) :
      Statement.Executes (.ifThen test yes line) state (.error failure)
  | ifElseTrue {test : Expression} {yes no : List Statement} {line : Nat} {state : State}
      {value : Int32} {outcome : Except ProgramFailure State}
      (holds : test.Evaluates state.store (.ok value)) (hValue : value ≠ 0)
      (rest : Program.Executes yes state outcome) :
      Statement.Executes (.ifElse test yes no line) state outcome
  | ifElseFalse {test : Expression} {yes no : List Statement} {line : Nat} {state : State}
      {outcome : Except ProgramFailure State} (fails : test.Evaluates state.store (.ok 0))
      (rest : Program.Executes no state outcome) :
      Statement.Executes (.ifElse test yes no line) state outcome
  | ifElseStops {test : Expression} {yes no : List Statement} {line : Nat} {state : State}
      {failure : ProgramFailure} (stops : test.Evaluates state.store (.error failure)) :
      Statement.Executes (.ifElse test yes no line) state (.error failure)
  | loopDone {body : List Statement} {test : Expression} {line : Nat} {state after : State}
      {value : Int32} (first : Program.Executes body state (.ok after))
      (holds : test.Evaluates after.store (.ok value)) (hValue : value ≠ 0) :
      Statement.Executes (.loop body test line) state (.ok after)
  | loopAgain {body : List Statement} {test : Expression} {line : Nat} {state after : State}
      {outcome : Except ProgramFailure State} (first : Program.Executes body state (.ok after))
      (fails : test.Evaluates after.store (.ok 0))
      (rest : Statement.Executes (.loop body test line) after outcome) :
      Statement.Executes (.loop body test line) state outcome
  | loopStops {body : List Statement} {test : Expression} {line : Nat} {state after : State}
      {failure : ProgramFailure} (first : Program.Executes body state (.ok after))
      (stops : test.Evaluates after.store (.error failure)) :
      Statement.Executes (.loop body test line) state (.error failure)
  | bodyStops {body : List Statement} {test : Expression} {line : Nat} {state : State}
      {failure : ProgramFailure} (first : Program.Executes body state (.error failure)) :
      Statement.Executes (.loop body test line) state (.error failure)
  | assign {name : String} {value : Expression} {line : Nat} {state : State} {word : Int32}
      (given : value.Evaluates state.store (.ok word)) :
      Statement.Executes (.assign name value line) state
        (.ok { state with store := state.store.set name word })
  | assignStops {name : String} {value : Expression} {line : Nat} {state : State}
      {failure : ProgramFailure} (stops : value.Evaluates state.store (.error failure)) :
      Statement.Executes (.assign name value line) state (.error failure)
  | read {name : String} {line : Nat} {state : State} {word : Int32} {input : List Int32}
      (given : state.input = word :: input) :
      Statement.Executes (.read name line) state
        (.ok { state with store := state.store.set name word, input })
  | readStops {name : String} {line : Nat} {state : State} (given : state.input = []) :
      Statement.Executes (.read name line) state (.error .inputExhausted)
  | write {value : Expression} {line : Nat} {state : State} {word : Int32}
      (given : value.Evaluates state.store (.ok word)) :
      Statement.Executes (.write value line) state
        (.ok { state with output := state.output.push word })
  | writeStops {value : Expression} {line : Nat} {state : State} {failure : ProgramFailure}
      (stops : value.Evaluates state.store (.error failure)) :
      Statement.Executes (.write value line) state (.error failure)

/-- The outcome of a sequence of statements. -/
inductive Program.Executes : List Statement → State → Except ProgramFailure State → Prop
  | nil {state : State} : Program.Executes [] state (.ok state)
  | cons {first : Statement} {rest : List Statement} {state after : State}
      {outcome : Except ProgramFailure State} (head : first.Executes state (.ok after))
      (tail : Program.Executes rest after outcome) :
      Program.Executes (first :: rest) state outcome
  | stops {first : Statement} {rest : List Statement} {state : State} {failure : ProgramFailure}
      (head : first.Executes state (.error failure)) :
      Program.Executes (first :: rest) state (.error failure)

end

end Tiny
