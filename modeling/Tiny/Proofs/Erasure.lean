import Tiny.Proofs.Assembly
import Tiny.Typing

/-!
# Programs without their types

Checking a program settles the types of its expressions and nothing else.  The code of a program
does not depend on types, so it is the same before and after.

* `erase_check`: a program and the program with its types settled are the same without types.
* `assembly_check`: so they have the same code.
-/

namespace Tiny

namespace Expression

/-- The expression with all types unresolved. -/
def erase : Expression → Expression
  | .binary op lhs rhs line _ => .binary op lhs.erase rhs.erase line .unresolved
  | .constant value line _ => .constant value line .unresolved
  | .reference name line _ => .reference name line .unresolved
  | .malformed line => .malformed line

end Expression

mutual

/-- The statement with all types unresolved. -/
def Statement.erase : Statement → Statement
  | .ifThen test yes line => .ifThen test.erase (Program.erase yes) line
  | .ifElse test yes no line => .ifElse test.erase (Program.erase yes) (Program.erase no) line
  | .loop body test line => .loop (Program.erase body) test.erase line
  | .assign name value line => .assign name value.erase line
  | .read name line => .read name line
  | .write value line => .write value.erase line

/-- The statements with all types unresolved. -/
def Program.erase : List Statement → List Statement
  | [] => []
  | first :: rest => first.erase :: Program.erase rest

end

/-! ### Checking -/

namespace Typing

theorem run_bind_eq {σ α β : Type} (x : StateM σ α) (f : α → StateM σ β) (s : σ) :
    (x >>= f).run s = (f (x.run s).1).run (x.run s).2 := rfl

theorem erase_settle (e : Expression) (found : Diagnostics) :
    ((settle e).run found).1.erase = e.erase := by
  cases e with
  | binary op lhs rhs line type =>
    by_cases h : lhs.type ≠ .integer ∨ rhs.type ≠ .integer
    · simp only [settle, if_pos h]
      rfl
    · simp only [settle, if_neg h]
      rfl
  | constant value line type => rfl
  | reference name line type => rfl
  | malformed line => rfl

theorem erase_walk_expression (e : Expression) (found : Diagnostics) :
    ((e.walk checker).run found).1.erase = e.erase := by
  induction e generalizing found with
  | binary op lhs rhs line type ihl ihr =>
    rw [Expression.walk, run_bind_eq, run_bind_eq, run_bind_eq]
    refine (erase_settle _ _).trans ?_
    rw [Expression.erase, Expression.erase, ihl, ihr]
  | constant value line type => rfl
  | reference name line type => rfl
  | malformed line => rfl

theorem erase_walk :
    (∀ (s : Statement) (found : Diagnostics),
      ((s.walk checker).run found).1.erase = s.erase) ∧
    ∀ (ss : List Statement) (found : Diagnostics),
      Program.erase ((Program.walk checker ss).run found).1 = Program.erase ss := by
  have hLeave : ∀ (s : Statement) (found : Diagnostics),
      ((checker.leaveStatement s).run found).1 = s := by
    intro s found
    rfl
  refine Statement.ind ?_ ?_ ?_ ?_ ?_ ?_ ?_ ?_
  · intro test yes line ih found
    rw [Statement.walk, run_bind_eq, run_bind_eq, run_bind_eq, hLeave, Statement.erase,
      Statement.erase, erase_walk_expression, ih]
  · intro test yes no line ihYes ihNo found
    rw [Statement.walk, run_bind_eq, run_bind_eq, run_bind_eq, run_bind_eq, hLeave,
      Statement.erase, Statement.erase, erase_walk_expression, ihYes, ihNo]
  · intro body test line ih found
    rw [Statement.walk, run_bind_eq, run_bind_eq, run_bind_eq, hLeave, Statement.erase,
      Statement.erase, erase_walk_expression, ih]
  · intro name value line found
    rw [Statement.walk, run_bind_eq, run_bind_eq, hLeave, Statement.erase, Statement.erase,
      erase_walk_expression]
  · intro name line found
    rfl
  · intro value line found
    rw [Statement.walk, run_bind_eq, run_bind_eq, hLeave, Statement.erase, Statement.erase,
      erase_walk_expression]
  · intro found
    rfl
  · intro first rest ihFirst ihRest found
    rw [Program.walk, run_bind_eq, run_bind_eq]
    show Statement.erase _ :: Program.erase _ = _
    rw [ihFirst, ihRest, Program.erase]

end Typing

theorem Diagnostics.eq_empty_of_hasErrors {found : Diagnostics} (h : ¬ found.hasErrors = true) :
    found = #[] := by
  simpa [Diagnostics.hasErrors] using h

/-- **Checking a program changes its types only.** -/
theorem Program.erase_check (p : Program) : Program.erase p.check.1 = Program.erase p :=
  Typing.erase_walk.2 p #[]

/-! ### Code -/

theorem Expression.covered_erase (symbols : Symbols) (e : Expression) :
    e.erase.Covered symbols ↔ e.Covered symbols := by
  induction e with
  | binary op lhs rhs line type ihl ihr => exact and_congr ihl ihr
  | constant value line type => exact Iff.rfl
  | reference name line type => exact Iff.rfl
  | malformed line => exact Iff.rfl

theorem covered_erase_all (symbols : Symbols) :
    (∀ s : Statement, s.erase.Covered symbols ↔ s.Covered symbols) ∧
    ∀ ss : List Statement, Program.Covered symbols (Program.erase ss) ↔
      Program.Covered symbols ss := by
  refine Statement.ind ?_ ?_ ?_ ?_ ?_ ?_ ?_ ?_
  · intro test yes line ih
    exact and_congr (test.covered_erase symbols) ih
  · intro test yes no line ihYes ihNo
    exact and_congr (test.covered_erase symbols) (and_congr ihYes ihNo)
  · intro body test line ih
    exact and_congr ih (test.covered_erase symbols)
  · intro name value line
    exact and_congr (value.covered_erase symbols) Iff.rfl
  · intro name line
    exact Iff.rfl
  · intro value line
    exact value.covered_erase symbols
  · exact Iff.rfl
  · intro first rest ihFirst ihRest
    exact and_congr ihFirst ihRest

namespace Assembly

theorem expression_erase (symbols : Symbols) (depth : Nat) (e : Expression) :
    expression symbols depth e.erase = expression symbols depth e := by
  induction e generalizing depth with
  | binary op lhs rhs line type ihl ihr =>
    rw [Expression.erase, expression, expression, ihl, ihr]
  | constant value line type => rfl
  | reference name line type => rfl
  | malformed line => rfl

theorem erase_all (symbols : Symbols) :
    (∀ s : Statement, statement symbols s.erase = statement symbols s) ∧
    ∀ ss : List Statement, statements symbols (Program.erase ss) = statements symbols ss := by
  refine Statement.ind ?_ ?_ ?_ ?_ ?_ ?_ ?_ ?_
  · intro test yes line ih
    rw [Statement.erase, statement, statement, expression_erase, ih]
  · intro test yes no line ihYes ihNo
    rw [Statement.erase, statement, statement, expression_erase, ihYes, ihNo]
  · intro body test line ih
    rw [Statement.erase, statement, statement, expression_erase, ih]
  · intro name value line
    rw [Statement.erase, statement, statement, expression_erase]
  · intro name line
    rfl
  · intro value line
    rw [Statement.erase, statement, statement, expression_erase]
  · rfl
  · intro first rest ihFirst ihRest
    rw [Program.erase, statements, statements, ihFirst, ihRest]

theorem program_erase (symbols : Symbols) (p : Program) :
    program symbols (Program.erase p) = program symbols p := by
  rw [program, program, (erase_all symbols).2]

end Assembly

/-- **Checking does not change the code of a program.** -/
theorem Program.assembly_check (symbols : Symbols) (p : Program) :
    Assembly.program symbols p.check.1 = Assembly.program symbols p := by
  rw [← Assembly.program_erase symbols p.check.1, Program.erase_check, Assembly.program_erase]

theorem Program.covered_check (symbols : Symbols) (p : Program) :
    Program.Covered symbols p.check.1 ↔ Program.Covered symbols p := by
  rw [← (covered_erase_all symbols).2 p.check.1, Program.erase_check, (covered_erase_all symbols).2]

end Tiny
