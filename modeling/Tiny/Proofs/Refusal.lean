import Tiny.Proofs.Backpatching
import Tiny.Proofs.Occurrences

/-!
# Programs that have no code

The code of a program cannot be written if a part of the program is malformed or a name has no
location.  The work then stops at the first such place on its way, whatever was reserved by then and
is still to be filled.  Its way is not the way of a walk: what is assigned comes before the name
that it is assigned to.

* `Need`: what the code of a program asks for, and `Program.needs`, all of this in its order.
* `mem_needs_iff`: locations are asked for exactly the names of the program.
* `Refuses`: work that is stopped by a fault.
* `refuses_all`: the work for a statement is stopped by the first need that is not met.
* `generate_refuses`: so is the work for a program, and nothing else stops it.
-/

namespace Tiny

/-- What the code of a program asks for: the location of a name, or the code of a malformed part,
which there is not. -/
inductive Need where
  | location (name : String)
  | code (line : Nat)

namespace Need

/-- The fault of a need that is not met. -/
def fault? (symbols : Symbols) : Need → Option Fault
  | .location name =>
    if symbols.location? name = none then some (.unknownSymbol name) else none
  | .code line => some (.malformedTree line)

/-- The fault of the first need that is not met. -/
def first? (symbols : Symbols) (needs : List Need) : Option Fault :=
  needs.findSome? (fault? symbols)

variable {symbols : Symbols} {needs : List Need}

theorem first?_append (a b : List Need) :
    first? symbols (a ++ b) = (first? symbols a).or (first? symbols b) :=
  List.findSome?_append

theorem first?_append_eq_some {a b : List Need} {fault : Fault}
    (h : first? symbols (a ++ b) = some fault) :
    first? symbols a = some fault ∨
      first? symbols a = none ∧ first? symbols b = some fault := by
  rw [first?_append, Option.or_eq_some_iff] at h
  exact h

theorem first?_eq_none_iff :
    first? symbols needs = none ↔ ∀ need ∈ needs, need.fault? symbols = none :=
  List.findSome?_eq_none_iff

theorem fault?_eq_some {need : Need} {fault : Fault} :
    need.fault? symbols = some fault ↔
      (∃ line, need = .code line ∧ fault = .malformedTree line) ∨
      ∃ name, need = .location name ∧ symbols.location? name = none ∧
        fault = .unknownSymbol name := by
  cases need with
  | code line => simp [fault?, eq_comm]
  | location name => simp [fault?, eq_comm]

theorem fault?_location_eq_none {name : String} :
    (Need.location name).fault? symbols = none ↔
      ∃ location, symbols.location? name = some location := by
  cases h : symbols.location? name with
  | none => simp [fault?, h]
  | some location => simp [fault?, h]

end Need

/-! ### What a tree asks for -/

namespace Expression

/-- What the code of an expression asks for, in its order. -/
def needs : Expression → List Need
  | .binary _ lhs rhs _ _ => lhs.needs ++ rhs.needs
  | .constant _ _ _ => []
  | .reference name _ _ => [.location name]
  | .malformed line => [.code line]

end Expression

mutual

/-- What the code of a statement asks for, in its order. -/
def Statement.needs : Statement → List Need
  | .ifThen test yes _ => test.needs ++ Program.needs yes
  | .ifElse test yes no _ => test.needs ++ (Program.needs yes ++ Program.needs no)
  | .loop body test _ => Program.needs body ++ test.needs
  | .assign name value _ => value.needs ++ [.location name]
  | .read name _ => [.location name]
  | .write value _ => value.needs

/-- What the code of a sequence of statements asks for, in its order. -/
def Program.needs : List Statement → List Need
  | [] => []
  | statement :: rest => statement.needs ++ Program.needs rest

end

theorem Expression.mem_needs_iff {name : String} (e : Expression) :
    .location name ∈ e.needs ↔ name ∈ e.occurrences.map Prod.fst := by
  induction e with
  | binary op lhs rhs line type ihl ihr =>
    rw [needs, occurrences, List.map_append, List.mem_append, List.mem_append, ihl, ihr]
  | constant value line type => simp [needs, occurrences]
  | reference other line type => simp [needs, occurrences]
  | malformed line => simp [needs, occurrences]

/-- **Locations are asked for exactly the names of the program**, in another order than that in
which a walk comes to them. -/
theorem mem_needs_iff {name : String} :
    (∀ s : Statement, .location name ∈ s.needs ↔ name ∈ s.occurrences.map Prod.fst) ∧
    ∀ ss : List Statement,
      .location name ∈ Program.needs ss ↔ name ∈ (Program.occurrences ss).map Prod.fst := by
  refine Statement.ind ?_ ?_ ?_ ?_ ?_ ?_ ?_ ?_
  · intro test yes line ih
    rw [Statement.needs, Statement.occurrences, List.map_append, List.mem_append, List.mem_append,
      test.mem_needs_iff, ih]
  · intro test yes no line ihYes ihNo
    rw [Statement.needs, Statement.occurrences, List.map_append, List.map_append, List.mem_append,
      List.mem_append, List.mem_append, List.mem_append, test.mem_needs_iff, ihYes, ihNo]
  · intro body test line ih
    rw [Statement.needs, Statement.occurrences, List.map_append, List.mem_append, List.mem_append,
      test.mem_needs_iff, ih]
  · intro target value line
    rw [Statement.needs, Statement.occurrences, List.map_cons, List.mem_append,
      List.mem_singleton, List.mem_cons, value.mem_needs_iff, Need.location.injEq, or_comm]
  · intro target line
    simp [Statement.needs, Statement.occurrences]
  · intro value line
    exact value.mem_needs_iff
  · simp [Program.needs, Program.occurrences]
  · intro first rest ihFirst ihRest
    rw [Program.needs, Program.occurrences, List.map_append, List.mem_append, List.mem_append,
      ihFirst, ihRest]

theorem Expression.covered_iff {symbols : Symbols} (e : Expression) :
    e.Covered symbols ↔ Need.first? symbols e.needs = none := by
  induction e with
  | binary op lhs rhs line type ihl ihr =>
    rw [Covered, needs, Need.first?_append, Option.or_eq_none_iff, ihl, ihr]
  | constant value line type => exact ⟨fun _ => rfl, fun _ => trivial⟩
  | reference name line type =>
    rw [Covered, needs, Need.first?_eq_none_iff, List.forall_mem_singleton,
      Need.fault?_location_eq_none]
  | malformed line => exact ⟨False.elim, nofun⟩

theorem covered_iff (symbols : Symbols) :
    (∀ s : Statement, s.Covered symbols ↔ Need.first? symbols s.needs = none) ∧
    ∀ ss : List Statement,
      Program.Covered symbols ss ↔ Need.first? symbols (Program.needs ss) = none := by
  have hName : ∀ name : String, (∃ location, symbols.location? name = some location) ↔
      Need.first? symbols [.location name] = none := by
    intro name
    rw [Need.first?_eq_none_iff, List.forall_mem_singleton, Need.fault?_location_eq_none]
  refine Statement.ind ?_ ?_ ?_ ?_ ?_ ?_ ?_ ?_
  · intro test yes line ih
    rw [Statement.Covered, Statement.needs, Need.first?_append, Option.or_eq_none_iff,
      test.covered_iff, ih]
  · intro test yes no line ihYes ihNo
    rw [Statement.Covered, Statement.needs, Need.first?_append, Need.first?_append,
      Option.or_eq_none_iff, Option.or_eq_none_iff, test.covered_iff, ihYes, ihNo]
  · intro body test line ih
    rw [Statement.Covered, Statement.needs, Need.first?_append, Option.or_eq_none_iff,
      test.covered_iff, ih]
  · intro name value line
    rw [Statement.Covered, Statement.needs, Need.first?_append, Option.or_eq_none_iff,
      value.covered_iff, hName]
  · intro name line
    exact hName name
  · intro value line
    exact value.covered_iff
  · exact ⟨fun _ => rfl, fun _ => trivial⟩
  · intro first rest ihFirst ihRest
    rw [Program.Covered, Program.needs, Need.first?_append, Option.or_eq_none_iff, ihFirst,
      ihRest]

/-! ### Work that is stopped -/

namespace Code

open Emitter Register

variable {α β : Type} {symbols : Symbols} {fault : Fault} {p : Program}

/-- From every ready emitter on, the work is stopped by the fault, if there are `size` locations
left that a branch can reach. -/
def Refuses (work : Emit α) (size : Nat) (fault : Fault) : Prop :=
  ∀ emitter : Emitter, emitter.Ready → emitter.location + size < 2147483648 →
    ∃ after, work emitter = .error fault after

theorem Refuses.mono {work : Emit α} {m n : Nat} (h : Refuses work m fault) (le : m ≤ n) :
    Refuses work n fault :=
  fun emitter ready small => h emitter ready (by omega)

theorem Refuses.bind {work : Emit α} {n : Nat} (h : Refuses work n fault) (f : α → Emit β) :
    Refuses (work >>= f) n fault := by
  intro emitter ready small
  obtain ⟨after, hWork⟩ := h emitter ready small
  exact ⟨after, bind_of_error hWork⟩

/-- Work that is stopped behind some that is not. -/
theorem Lays.refuses {work : Emit Unit} {code : List Instruction} {next : Emit α} {n : Nat}
    (h : Lays work code) (h' : Refuses next n fault) :
    Refuses (work >>= fun _ => next) (code.length + n) fault := by
  intro emitter ready small
  obtain ⟨entries, hWork, -⟩ := h emitter ready (by omega)
  obtain ⟨after, hNext⟩ := h' _ (ready.advance entries code.length)
    (show emitter.location + code.length + n < 2147483648 by omega)
  exact ⟨after, (bind_of_ok hWork).trans hNext⟩

theorem Refuses.commented {work : Emit α} {n : Nat} {text : String} (h : Refuses work n fault)
    (plain : '\n' ∉ text.toList) : Refuses (Emitter.comment text >>= fun _ => work) n fault :=
  ((lays_comment plain).refuses h).mono (by simp)

theorem refuses_locationOf {name : String}
    (h : Need.first? symbols [.location name] = some fault) :
    Refuses (locationOf symbols name) 0 fault := by
  intro emitter _ _
  rw [Need.first?, List.findSome?_singleton, Need.fault?_eq_some] at h
  rcases h with ⟨line, ⟨⟩, -⟩ | ⟨_, ⟨⟩, hName, rfl⟩
  rw [locationOf, hName]
  exact ⟨emitter, rfl⟩

theorem refuses_expression {e : Expression} (h : Need.first? symbols e.needs = some fault)
    (depth : Nat) :
    Refuses (expression symbols depth e) (Assembly.expression symbols depth e).length fault := by
  induction e generalizing depth with
  | constant value line type => cases h
  | reference name line type =>
    rw [expression]
    exact (((refuses_locationOf h).bind _).commented (by decide)).mono (Nat.zero_le _)
  | binary op lhs rhs line type ihl ihr =>
    have push : Lays (placeIndexed .st ac (temporary depth) mp "op: push left") _ :=
      lays_indexed rfl (by decide) (by decide) (by decide)
    rw [expression, Assembly.expression, List.length_append, List.length_cons, List.length_append]
    refine Refuses.commented ?_ (by decide)
    rcases Need.first?_append_eq_some h with h | ⟨hl, h⟩
    · exact ((ihl h depth).bind _).mono (by omega)
    · refine ((lays_expression (lhs.covered_iff.mpr hl) depth).refuses
        (push.refuses ((ihr h (depth + 1)).bind _))).mono ?_
      rw [List.length_singleton]
      omega
  | malformed line =>
    intro emitter _ _
    exact ⟨emitter, by rw [← Option.some.inj h]; rfl⟩

theorem refuses_ifOpening {test : Expression}
    (h : Need.first? symbols test.needs = some fault) :
    Refuses (ifOpening symbols test) (Assembly.expression symbols 0 test).length fault :=
  ((refuses_expression h 0).bind _).commented (by decide)

theorem refuses_ifThen {test : Expression} {yes : List Statement} {line : Nat}
    (hYes : ∀ fault, Need.first? symbols (Program.needs yes) = some fault →
      Refuses (statements symbols yes) (Assembly.statements symbols yes).length fault)
    (h : Need.first? symbols (Statement.ifThen test yes line).needs = some fault) :
    Refuses (statement symbols (.ifThen test yes line))
      (Assembly.statement symbols (.ifThen test yes line)).length fault := by
  rw [statement_ifThen, Assembly.statement, List.length_append, List.length_cons]
  rcases Need.first?_append_eq_some h with h | ⟨hTest, h⟩
  · exact ((refuses_ifOpening h).bind _).mono (by omega)
  · intro emitter ready small
    obtain ⟨a, ha, -⟩ := ifOpening_run (test.covered_iff.mpr hTest) ready (by omega)
    have ready₁ := ready.opened a (fun l hl =>
      Nat.lt_add_right (Assembly.expression symbols 0 test).length (ready.below l hl))
    obtain ⟨after, hb⟩ := hYes fault h _ ready₁ (by rw [reach_location]; omega)
    exact ⟨after, by rw [bind_of_ok ha, bind_of_error hb]⟩

theorem refuses_ifElse {test : Expression} {yes no : List Statement} {line : Nat}
    (hYes : ∀ fault, Need.first? symbols (Program.needs yes) = some fault →
      Refuses (statements symbols yes) (Assembly.statements symbols yes).length fault)
    (hNo : ∀ fault, Need.first? symbols (Program.needs no) = some fault →
      Refuses (statements symbols no) (Assembly.statements symbols no).length fault)
    (h : Need.first? symbols (Statement.ifElse test yes no line).needs = some fault) :
    Refuses (statement symbols (.ifElse test yes no line))
      (Assembly.statement symbols (.ifElse test yes no line)).length fault := by
  rw [statement_ifElse, Assembly.statement, List.length_append, List.length_cons,
    List.length_append, List.length_cons]
  rcases Need.first?_append_eq_some h with h | ⟨hTest, h⟩
  · exact ((refuses_ifOpening h).bind _).mono (by omega)
  · intro emitter ready small
    have hBelow : ∀ l ∈ emitter.reserved,
        l < emitter.location + (Assembly.expression symbols 0 test).length :=
      fun l hl => Nat.lt_add_right _ (ready.below l hl)
    obtain ⟨a, ha, -⟩ := ifOpening_run (test.covered_iff.mpr hTest) ready (by omega)
    have ready₁ := ready.opened a hBelow
    rcases Need.first?_append_eq_some h with h | ⟨hFirst, h⟩
    · obtain ⟨after, hb⟩ := hYes fault h _ ready₁ (by rw [reach_location]; omega)
      exact ⟨after, by rw [bind_of_ok ha, bind_of_error hb]⟩
    · obtain ⟨b, hb, -⟩ := lays_statements ((covered_iff symbols).2 yes |>.mpr hFirst) _ ready₁
        (by rw [reach_location]; omega)
      have ready₂ := ready₁.advance b (Assembly.statements symbols yes).length
      rw [reach_advance] at hb ready₂
      obtain ⟨c, hc, -⟩ := elseOpening_run ready₂ rfl hBelow rfl (by rw [reach_location]; omega)
      rw [reach_reach, reach_location] at hc
      have hBelow' : ∀ l ∈ emitter.reserved, l < emitter.location +
          (Assembly.expression symbols 0 test).length + 1 +
            (Assembly.statements symbols yes).length := by
        intro l hl
        have := hBelow l hl
        omega
      have ready₃ := ready.opened (a ++ b ++ c) hBelow'
      obtain ⟨after, hd⟩ := hNo fault h _ ready₃ (by rw [reach_location]; omega)
      exact ⟨after, by rw [bind_of_ok ha, bind_of_ok hb, bind_of_ok hc, bind_of_error hd]⟩

theorem refuses_loop {body : List Statement} {test : Expression} {line : Nat}
    (hBody : ∀ fault, Need.first? symbols (Program.needs body) = some fault →
      Refuses (statements symbols body) (Assembly.statements symbols body).length fault)
    (h : Need.first? symbols (Statement.loop body test line).needs = some fault) :
    Refuses (statement symbols (.loop body test line))
      (Assembly.statement symbols (.loop body test line)).length fault := by
  rw [statement_loop, Assembly.statement, List.length_append, List.length_append,
    List.length_singleton]
  intro emitter ready small
  obtain ⟨a, ha, -⟩ := loopOpening_run ready
  have ready₁ := ready.reach a ready.below
  rcases Need.first?_append_eq_some h with h | ⟨hFirst, h⟩
  · obtain ⟨after, hb⟩ := hBody fault h _ ready₁ (by rw [reach_location]; omega)
    exact ⟨after, by rw [bind_of_ok ha, bind_of_error hb]⟩
  · obtain ⟨b, hb, -⟩ := lays_statements ((covered_iff symbols).2 body |>.mpr hFirst) _ ready₁
      (by rw [reach_location]; omega)
    have ready₂ := ready₁.advance b (Assembly.statements symbols body).length
    rw [reach_advance] at hb ready₂
    obtain ⟨after, hc⟩ := refuses_expression h 0 _ ready₂ (by rw [reach_location]; omega)
    exact ⟨after, by rw [bind_of_ok ha, bind_of_ok hb, bind_of_error hc]⟩

/-- **The work for a statement is stopped by the first need that is not met.** -/
theorem refuses_all (symbols : Symbols) :
    (∀ (s : Statement) (fault : Fault), Need.first? symbols s.needs = some fault →
      Refuses (statement symbols s) (Assembly.statement symbols s).length fault) ∧
    ∀ (ss : List Statement) (fault : Fault),
      Need.first? symbols (Program.needs ss) = some fault →
      Refuses (statements symbols ss) (Assembly.statements symbols ss).length fault := by
  refine Statement.ind ?_ ?_ ?_ ?_ ?_ ?_ ?_ ?_
  · intro test yes line ih fault h
    exact refuses_ifThen ih h
  · intro test yes no line ihYes ihNo fault h
    exact refuses_ifElse ihYes ihNo h
  · intro body test line ih fault h
    exact refuses_loop ih h
  · intro name value line fault h
    rw [statement, Assembly.statement, List.length_append]
    refine Refuses.commented ?_ (by decide)
    rcases Need.first?_append_eq_some h with h | ⟨hValue, h⟩
    · exact ((refuses_expression h 0).bind _).mono (Nat.le_add_right _ _)
    · exact ((lays_expression (value.covered_iff.mpr hValue) 0).refuses
        ((refuses_locationOf h).bind _)).mono (by omega)
  · intro name line fault h
    have input : Lays (placeRegisters .input ac 0 0 "read integer value") _ :=
      lays_registers rfl (by decide) (by decide) (by decide) (by decide)
    rw [statement]
    exact (input.refuses ((refuses_locationOf h).bind _)).mono (by simp [Assembly.statement])
  · intro value line fault h
    rw [statement, Assembly.statement, List.length_append]
    exact ((refuses_expression h 0).bind _).mono (Nat.le_add_right _ _)
  · intro fault h
    cases h
  · intro first rest ihFirst ihRest fault h
    rw [statements, Assembly.statements, List.length_append]
    rcases Need.first?_append_eq_some h with h | ⟨hFirst, h⟩
    · exact ((ihFirst fault h).bind _).mono (Nat.le_add_right _ _)
    · exact (lays_statement ((covered_iff symbols).1 first |>.mpr hFirst)).refuses
        (ihRest fault h)

/-! ### Whole programs -/

/-- How the work for a program ends. -/
theorem fst_generate (small : (Assembly.program symbols p).length < 2147483648) {sink : Sink}
    (unlimited : sink.limit = none) (traceCode : Bool) (fileName : String) :
    (p.generate symbols traceCode fileName sink).1 =
      match Need.first? symbols (Program.needs p) with
      | some fault => .error fault
      | none => .ok () := by
  cases h : Need.first? symbols (Program.needs p) with
  | none =>
    obtain ⟨entries, hRun, -⟩ := generate_run ((covered_iff symbols).2 p |>.mpr h) small unlimited
      traceCode fileName
    rw [hRun]
  | some fault =>
    have hLength : 2 + (Assembly.statements symbols p).length < 2147483648 := by
      rw [Assembly.program, List.length_append, List.length_append] at small
      exact Nat.lt_of_le_of_lt (Nat.add_le_add_left (Nat.le_add_right _ _) _) small
    obtain ⟨a, ha, -⟩ := opening_run unlimited traceCode fileName
    have ready := (fresh_ready unlimited traceCode).advance (heading fileName ++ a) 2
    obtain ⟨after, hb⟩ := (refuses_all symbols).2 p fault h _ ready hLength
    have hProgram : program symbols fileName p (fresh sink traceCode) = .error fault after := by
      rw [program_eq, bind_of_ok ha, bind_of_error (bind_of_error hb)]
    have hRun : Code.program symbols fileName p { sink, traceCode } = _ := hProgram
    rw [Program.generate, hRun]

theorem error_iff_first? (small : (Assembly.program symbols p).length < 2147483648) {sink : Sink}
    (unlimited : sink.limit = none) (traceCode : Bool) (fileName : String) :
    (p.generate symbols traceCode fileName sink).1 = .error fault ↔
      Need.first? symbols (Program.needs p) = some fault := by
  rw [fst_generate small unlimited]
  cases h : Need.first? symbols (Program.needs p) with
  | none => simp
  | some other => simp

/-- **A program has code unless a part of it is malformed or a name in it has no location.**  What
stops the work is the first such place on its way: every need in front of it is met.  It is never
stopped because of a branch or a reserved location. -/
theorem generate_refuses (small : (Assembly.program symbols p).length < 2147483648) {sink : Sink}
    (unlimited : sink.limit = none) (traceCode : Bool) (fileName : String) :
    let outcome := (p.generate symbols traceCode fileName sink).1
    ((∃ fault, outcome = .error fault) ↔
      (∃ line, .code line ∈ Program.needs p) ∨
        ∃ name ∈ (Program.occurrences p).map Prod.fst, symbols.location? name = none) ∧
    (∀ fault, outcome = .error fault ↔
      ∃ before need after, Program.needs p = before ++ need :: after ∧
        need.fault? symbols = some fault ∧ ∀ other ∈ before, other.fault? symbols = none) ∧
    ∀ cause, outcome ≠ .error (.backpatch cause) := by
  intro outcome
  have hError : ∀ fault, outcome = .error fault ↔
      Need.first? symbols (Program.needs p) = some fault :=
    fun fault => error_iff_first? small unlimited traceCode fileName
  refine ⟨?_, fun fault => ?_, fun cause h => ?_⟩
  · simp only [hError, ← mem_needs_iff.2]
    constructor
    · rintro ⟨fault, hFirst⟩
      obtain ⟨need, hIn, hFault⟩ := List.exists_of_findSome?_eq_some hFirst
      rcases Need.fault?_eq_some.mp hFault with ⟨line, rfl, -⟩ | ⟨name, rfl, hName, -⟩
      · exact .inl ⟨line, hIn⟩
      · exact .inr ⟨name, hIn, hName⟩
    · rintro (⟨line, hIn⟩ | ⟨name, hIn, hName⟩)
      · exact Option.isSome_iff_exists.mp (List.findSome?_isSome_iff.mpr ⟨_, hIn, rfl⟩)
      · exact Option.isSome_iff_exists.mp
          (List.findSome?_isSome_iff.mpr ⟨_, hIn, by simp [Need.fault?, hName]⟩)
  · rw [hError, Need.first?, List.findSome?_eq_some_iff]
  · obtain ⟨need, -, hFault⟩ := List.exists_of_findSome?_eq_some ((hError _).mp h)
    rcases Need.fault?_eq_some.mp hFault with ⟨line, -, hCause⟩ | ⟨name, -, -, hCause⟩
    · cases hCause
    · cases hCause

/-- `if x then x := ? + y end; write ?` with a malformed `?` on the lines 2 and 3. -/
def refusedTree : Program :=
  [.ifThen (.reference "x" 1 .integer)
    [.assign "x" (.binary .add (.malformed 2) (.reference "y" 2 .integer) 2 .integer) 2] 1,
   .write (.malformed 3) 3]

/-- The name `y` has no location either, but the malformed part in front of it is what stops the
work, while the branch of the choice is still to be filled. -/
theorem generate_refuses_tree :
    (refusedTree.generate ⟨[⟨"x", [1]⟩]⟩ true "refused.tny" {}).1 = .error (.malformedTree 2) :=
  ((generate_refuses (by decide) rfl true "refused.tny").2.1 _).mpr
    ⟨[.location "x"], .code 2, [.location "y", .location "x", .code 3], rfl, rfl, by decide⟩

end Code

end Tiny
