import Tiny.Compilation
import Tiny.Proofs.Erasure
import Tiny.Proofs.Occurrences

/-!
# Programs without their lines

Every node of a program, every entry of a symbol table and every diagnostic knows its line.  No
decision depends on it: analysis and code do the same for a program without its lines.

* `check_unlined`: the types and the violations are the same.
* `ofProgram_unlined`: the symbol table has the same names with as many occurrences.
* `generate_unlined`: so the code is the same.
-/

namespace Tiny

/-! ### Forgetting lines -/

/-- The diagnostic without its line. -/
def Diagnostic.unlined (diagnostic : Diagnostic) : Diagnostic :=
  { diagnostic with line := 0 }

/-- The diagnostics without their lines. -/
def Diagnostics.unlined (found : Diagnostics) : Diagnostics :=
  found.map Diagnostic.unlined

theorem Diagnostics.unlined_push (found : Diagnostics) (diagnostic : Diagnostic) :
    Diagnostics.unlined (found.push diagnostic) =
      (Diagnostics.unlined found).push diagnostic.unlined :=
  Array.map_push

theorem Diagnostics.hasErrors_unlined (found : Diagnostics) :
    (Diagnostics.unlined found).hasErrors = found.hasErrors := by
  rw [Diagnostics.hasErrors, Diagnostics.hasErrors, Diagnostics.unlined, Array.isEmpty,
    Array.isEmpty, Array.size_map]

namespace Expression

/-- The expression without its lines. -/
def unlined : Expression → Expression
  | .binary op lhs rhs _ type => .binary op lhs.unlined rhs.unlined 0 type
  | .constant value _ type => .constant value 0 type
  | .reference name _ type => .reference name 0 type
  | .malformed _ => .malformed 0

@[simp] theorem type_unlined (e : Expression) : e.unlined.type = e.type := by
  cases e <;> rfl

@[simp] theorem line_unlined (e : Expression) : e.unlined.line = 0 := by
  cases e <;> rfl

end Expression

mutual

/-- The statement without its lines. -/
def Statement.unlined : Statement → Statement
  | .ifThen test yes _ => .ifThen test.unlined (Program.unlined yes) 0
  | .ifElse test yes no _ => .ifElse test.unlined (Program.unlined yes) (Program.unlined no) 0
  | .loop body test _ => .loop (Program.unlined body) test.unlined 0
  | .assign name value _ => .assign name value.unlined 0
  | .read name _ => .read name 0
  | .write value _ => .write value.unlined 0

/-- The statements without their lines. -/
def Program.unlined : List Statement → List Statement
  | [] => []
  | first :: rest => first.unlined :: Program.unlined rest

end

theorem Program.unlined_append (a b : List Statement) :
    Program.unlined (a ++ b) = Program.unlined a ++ Program.unlined b := by
  induction a with
  | nil => rfl
  | cons first rest ih => rw [List.cons_append, unlined, ih, unlined, List.cons_append]

/-- The symbol with its occurrences counted only. -/
def Symbol.unlined (symbol : Symbol) : Symbol :=
  ⟨symbol.name, symbol.lines.map fun _ => 0⟩

/-- The symbol table without lines. -/
def Symbols.unlined (symbols : Symbols) : Symbols :=
  ⟨symbols.entries.map Symbol.unlined⟩

/-! ### Checking -/

namespace Typing

variable {α β : Type} {u : α → α} {v : β → β} {x y : Check α}

/-- Without lines, `x` is `y` and gives what `u` makes of its result.  What `x` reports is about
types. -/
structure Mirrors (u : α → α) (x y : Check α) : Prop where
  run : ∀ found : Diagnostics,
    y.run found.unlined = (u (x.run found).1, Diagnostics.unlined (x.run found).2)
  typing : ∀ found : Diagnostics, (∀ d ∈ found, d.concern = .typing) →
    ∀ d ∈ (x.run found).2, d.concern = .typing

theorem mirrors_pure (result : α) : Mirrors u (pure result) (pure (u result)) :=
  ⟨fun _ => rfl, fun _ typing => typing⟩

theorem Mirrors.bind {f g : α → Check β} (h : Mirrors u x y)
    (hf : ∀ result, Mirrors v (f result) (g (u result))) : Mirrors v (x >>= f) (y >>= g) where
  run := by
    intro found
    rw [run_bind_eq, run_bind_eq, h.run]
    exact (hf _).run _
  typing := by
    intro found typing
    rw [run_bind_eq]
    exact (hf _).typing _ (h.typing found typing)

theorem mirrors_report (line : Nat) (message : String) :
    Mirrors id (report line message) (report 0 message) where
  run := fun found =>
    congrArg (Prod.mk ()) (Diagnostics.unlined_push found ⟨.typing, line, message⟩).symm
  typing := by
    intro found typing d hd
    rcases Array.mem_push.mp hd with hd | rfl
    · exact typing d hd
    · rfl

theorem mirrors_settle (e : Expression) :
    Mirrors Expression.unlined (settle e) (settle e.unlined) := by
  cases e with
  | binary op lhs rhs line type =>
    simp only [Expression.unlined, settle, Expression.type_unlined]
    split
    · exact (mirrors_report line _).bind fun _ => mirrors_pure _
    · exact mirrors_pure (u := Expression.unlined) _
  | constant value line type => exact mirrors_pure (u := Expression.unlined) _
  | reference name line type => exact mirrors_pure (u := Expression.unlined) _
  | malformed line => exact mirrors_pure (u := Expression.unlined) _

theorem mirrors_walk_expression (e : Expression) :
    Mirrors Expression.unlined (e.walk checker) (e.unlined.walk checker) := by
  have hEnter : Mirrors id (pure () : Check Unit) (pure ()) := mirrors_pure ()
  induction e with
  | binary op lhs rhs line type ihl ihr =>
    exact hEnter.bind fun _ => ihl.bind fun lhs' => ihr.bind fun rhs' =>
      mirrors_settle (.binary op lhs' rhs' line type)
  | constant value line type =>
    exact hEnter.bind fun _ => mirrors_settle (.constant value line type)
  | reference name line type =>
    exact hEnter.bind fun _ => mirrors_settle (.reference name line type)
  | malformed line => exact hEnter.bind fun _ => mirrors_settle (.malformed line)

theorem mirrors_require (e : Expression) (type : ValueType) (message : String) :
    Mirrors id (require e type message) (require e.unlined type message) := by
  rw [require, require, Expression.type_unlined, Expression.line_unlined]
  split
  · exact mirrors_pure ()
  · exact mirrors_report e.line message

theorem mirrors_demand (s : Statement) : Mirrors id (demand s) (demand s.unlined) := by
  cases s with
  | ifThen test yes line => exact mirrors_require test _ _
  | ifElse test yes no line => exact mirrors_require test _ _
  | loop body test line => exact mirrors_require test _ _
  | assign name value line => exact mirrors_require value _ _
  | read name line => exact mirrors_pure ()
  | write value line => exact mirrors_require value _ _

theorem mirrors_walk :
    (∀ s : Statement, Mirrors Statement.unlined (s.walk checker) (s.unlined.walk checker)) ∧
    ∀ ss : List Statement, Mirrors Program.unlined (Program.walk checker ss)
      (Program.walk checker (Program.unlined ss)) := by
  have hEnter : Mirrors id (pure () : Check Unit) (pure ()) := mirrors_pure ()
  have hLeave : ∀ s : Statement, Mirrors Statement.unlined (checker.leaveStatement s)
      (checker.leaveStatement s.unlined) := fun s =>
    (mirrors_demand s).bind fun _ => mirrors_pure s
  refine Statement.ind ?_ ?_ ?_ ?_ ?_ ?_ ?_ ?_
  · intro test yes line ih
    exact hEnter.bind fun _ => (mirrors_walk_expression test).bind fun _ => ih.bind fun _ =>
      hLeave _
  · intro test yes no line ihYes ihNo
    exact hEnter.bind fun _ => (mirrors_walk_expression test).bind fun _ => ihYes.bind fun _ =>
      ihNo.bind fun _ => hLeave _
  · intro body test line ih
    exact hEnter.bind fun _ => ih.bind fun _ => (mirrors_walk_expression test).bind fun _ =>
      hLeave _
  · intro name value line
    exact hEnter.bind fun _ => (mirrors_walk_expression value).bind fun _ => hLeave _
  · intro name line
    exact hEnter.bind fun _ => hLeave _
  · intro value line
    exact hEnter.bind fun _ => (mirrors_walk_expression value).bind fun _ => hLeave _
  · exact mirrors_pure _
  · intro first rest ihFirst ihRest
    exact ihFirst.bind fun _ => ihRest.bind fun _ => mirrors_pure _

end Typing

/-- **Checking does not depend on lines.** -/
theorem Program.check_unlined (p : Program) :
    Program.check (Program.unlined p) = (Program.unlined p.check.1, p.check.2.unlined) := by
  have hEmpty : Diagnostics.unlined #[] = #[] := Array.map_empty
  have hRun := (Typing.mirrors_walk.2 p).run #[]
  rw [hEmpty] at hRun
  exact hRun

/-- Checking reports violations of types only. -/
theorem Program.typing_check (p : Program) : ∀ d ∈ p.check.2, d.concern = .typing :=
  (Typing.mirrors_walk.2 p).typing #[] fun _ hd => absurd hd (Array.not_mem_empty _)

/-! ### Symbols -/

/-- The names of a program without their lines. -/
def unlinedNames (names : List (String × Nat)) : List (String × Nat) :=
  names.map fun name => (name.1, 0)

theorem unlinedNames_append (a b : List (String × Nat)) :
    unlinedNames (a ++ b) = unlinedNames a ++ unlinedNames b :=
  List.map_append

theorem Expression.occurrences_unlined (e : Expression) :
    e.unlined.occurrences = unlinedNames e.occurrences := by
  induction e with
  | binary op lhs rhs line type ihl ihr =>
    rw [unlined, occurrences, occurrences, ihl, ihr, unlinedNames_append]
  | constant value line type => rfl
  | reference name line type => rfl
  | malformed line => rfl

theorem occurrences_unlined_all :
    (∀ s : Statement, s.unlined.occurrences = unlinedNames s.occurrences) ∧
    ∀ ss : List Statement,
      Program.occurrences (Program.unlined ss) = unlinedNames (Program.occurrences ss) := by
  refine Statement.ind ?_ ?_ ?_ ?_ ?_ ?_ ?_ ?_
  · intro test yes line ih
    rw [Statement.unlined, Statement.occurrences, Statement.occurrences,
      test.occurrences_unlined, ih, unlinedNames_append]
  · intro test yes no line ihYes ihNo
    rw [Statement.unlined, Statement.occurrences, Statement.occurrences,
      test.occurrences_unlined, ihYes, ihNo, unlinedNames_append, unlinedNames_append]
  · intro body test line ih
    rw [Statement.unlined, Statement.occurrences, Statement.occurrences, ih,
      test.occurrences_unlined, unlinedNames_append]
  · intro name value line
    rw [Statement.unlined, Statement.occurrences, Statement.occurrences,
      value.occurrences_unlined]
    rfl
  · intro name line
    rfl
  · intro value line
    exact value.occurrences_unlined
  · rfl
  · intro first rest ihFirst ihRest
    rw [Program.unlined, Program.occurrences, Program.occurrences, ihFirst, ihRest,
      unlinedNames_append]

namespace Symbols

theorem insertInto_unlined (name : String) (line : Nat) (entries : List Symbol) :
    insertInto name 0 (entries.map Symbol.unlined) =
      (insertInto name line entries).map Symbol.unlined := by
  induction entries with
  | nil => rfl
  | cons symbol rest ih =>
    rw [List.map_cons, insertInto, insertInto]
    by_cases h : symbol.name = name
    · have hName : symbol.unlined.name = name := h
      rw [if_pos h, if_pos hName, List.map_cons, Symbol.unlined, Symbol.unlined]
      simp only [List.map_append, List.map_cons, List.map_nil]
    · have hName : symbol.unlined.name ≠ name := h
      rw [if_neg h, if_neg hName, List.map_cons, ih]

theorem insertAll_unlined (names : List (String × Nat)) (symbols : Symbols) :
    symbols.unlined.insertAll (unlinedNames names) = (symbols.insertAll names).unlined := by
  induction names generalizing symbols with
  | nil => rfl
  | cons name names ih =>
    have hInsert : symbols.unlined.insert name.1 0 = (symbols.insert name.1 name.2).unlined :=
      congrArg Symbols.mk (insertInto_unlined name.1 name.2 symbols.entries)
    rw [insertAll_cons, ← ih, ← hInsert]
    rfl

/-- **The symbol table does not depend on lines**, but for the lines in it. -/
theorem ofProgram_unlined (p : Program) :
    ofProgram (Program.unlined p) = (ofProgram p).unlined := by
  rw [ofProgram_eq, ofProgram_eq, occurrences_unlined_all.2, ← insertAll_unlined]
  rfl

theorem location?_unlined (symbols : Symbols) (name : String) :
    symbols.unlined.location? name = symbols.location? name := by
  rw [location?, location?, unlined, List.findIdx?_map]
  rfl

end Symbols

/-! ### Code -/

namespace Code

theorem locationOf_unlined (symbols : Symbols) (name : String) :
    locationOf symbols.unlined name = locationOf symbols name := by
  rw [locationOf, locationOf, Symbols.location?_unlined]

theorem expression_unlined {symbols : Symbols} {e : Expression} (covered : e.Covered symbols)
    (depth : Nat) :
    expression symbols.unlined depth e.unlined = expression symbols depth e := by
  induction e generalizing depth with
  | binary op lhs rhs line type ihl ihr =>
    rw [Expression.unlined, expression, expression, ihl covered.1, ihr covered.2]
  | constant value line type => rfl
  | reference name line type =>
    rw [Expression.unlined, expression, expression, locationOf_unlined]
  | malformed line => exact absurd covered id

theorem unlined_all (symbols : Symbols) :
    (∀ s : Statement, s.Covered symbols →
      statement symbols.unlined s.unlined = statement symbols s) ∧
    ∀ ss : List Statement, Program.Covered symbols ss →
      statements symbols.unlined (Program.unlined ss) = statements symbols ss := by
  refine Statement.ind ?_ ?_ ?_ ?_ ?_ ?_ ?_ ?_
  · intro test yes line ih covered
    rw [Statement.unlined, statement, statement, expression_unlined covered.1, ih covered.2]
  · intro test yes no line ihYes ihNo covered
    rw [Statement.unlined, statement, statement, expression_unlined covered.1,
      ihYes covered.2.1, ihNo covered.2.2]
  · intro body test line ih covered
    rw [Statement.unlined, statement, statement, expression_unlined covered.2, ih covered.1]
  · intro name value line covered
    rw [Statement.unlined, statement, statement, expression_unlined covered.1,
      locationOf_unlined]
  · intro name line covered
    rw [Statement.unlined, statement, statement, locationOf_unlined]
  · intro value line covered
    rw [Statement.unlined, statement, statement, expression_unlined covered]
  · intro _
    rfl
  · intro first rest ihFirst ihRest covered
    rw [Program.unlined, statements, statements, ihFirst covered.1, ihRest covered.2]

end Code

/-- **Code does not depend on lines.**  Only a program that has code is asked for, since the fault
for a malformed part names its line. -/
theorem Program.generate_unlined {symbols : Symbols} {p : Program}
    (covered : Program.Covered symbols p) (traceCode : Bool) (fileName : String) (sink : Sink) :
    Program.generate (Program.unlined p) symbols.unlined traceCode fileName sink =
      p.generate symbols traceCode fileName sink := by
  rw [Program.generate, Program.generate, Code.program, Code.program,
    (Code.unlined_all symbols).2 p covered]

end Tiny
