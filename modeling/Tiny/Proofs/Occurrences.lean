import Tiny.Symbols

/-!
# The names of a program

The names of a program in the order in which a walk comes to them.  Collecting symbols puts them
into the table in this order and leaves the program as it is.

* `ofProgram_eq`: the symbol table of a program holds its names, in their order.
* `size_ofProgram_le`: it has at most as many entries as there are names.
* `location?_ofProgram`: a name has a location if and only if it occurs.
-/

namespace Tiny

namespace Expression

/-- The names of an expression, with their lines. -/
def occurrences : Expression → List (String × Nat)
  | .binary _ lhs rhs _ _ => lhs.occurrences ++ rhs.occurrences
  | .constant _ _ _ => []
  | .reference name line _ => [(name, line)]
  | .malformed _ => []

end Expression

mutual

/-- The names of a statement, with their lines: a target before the value that is assigned to it,
and the body of a loop before its test. -/
def Statement.occurrences : Statement → List (String × Nat)
  | .ifThen test yes _ => test.occurrences ++ Program.occurrences yes
  | .ifElse test yes no _ =>
    test.occurrences ++ (Program.occurrences yes ++ Program.occurrences no)
  | .loop body test _ => Program.occurrences body ++ test.occurrences
  | .assign name value line => (name, line) :: value.occurrences
  | .read name line => [(name, line)]
  | .write value _ => value.occurrences

/-- The names of a sequence of statements, with their lines. -/
def Program.occurrences : List Statement → List (String × Nat)
  | [] => []
  | statement :: rest => statement.occurrences ++ Program.occurrences rest

end

namespace Symbols

/-- Records names one after the other. -/
def insertAll (symbols : Symbols) (names : List (String × Nat)) : Symbols :=
  names.foldl (fun symbols name => symbols.insert name.1 name.2) symbols

@[simp] theorem insertAll_nil (symbols : Symbols) : symbols.insertAll [] = symbols := rfl

@[simp] theorem insertAll_cons (symbols : Symbols) (name : String × Nat)
    (names : List (String × Nat)) :
    symbols.insertAll (name :: names) = (symbols.insert name.1 name.2).insertAll names := rfl

theorem insertAll_append (symbols : Symbols) (a b : List (String × Nat)) :
    symbols.insertAll (a ++ b) = (symbols.insertAll a).insertAll b :=
  List.foldl_append

/-! ### Collecting -/

theorem run_bind_of_eq {σ α β : Type} {x : StateM σ α} {f : α → StateM σ β} {s t : σ} {a : α}
    (h : x.run s = (a, t)) : (x >>= f).run s = (f a).run t := by
  rw [StateT.run_bind, h]
  rfl

theorem walk_expression (e : Expression) (symbols : Symbols) :
    (e.walk collector).run symbols = (e, symbols.insertAll e.occurrences) := by
  induction e generalizing symbols with
  | binary op lhs rhs line type ihl ihr =>
    have hEnter : (collector.enterExpression (.binary op lhs rhs line type)).run symbols =
        ((), symbols) := rfl
    rw [Expression.walk, Expression.occurrences, insertAll_append, run_bind_of_eq hEnter,
      run_bind_of_eq (ihl symbols), run_bind_of_eq (ihr _)]
    rfl
  | constant value line type => rfl
  | reference name line type => rfl
  | malformed line => rfl

theorem walk_all :
    (∀ (s : Statement) (symbols : Symbols),
      (s.walk collector).run symbols = (s, symbols.insertAll s.occurrences)) ∧
    ∀ (ss : List Statement) (symbols : Symbols),
      (Program.walk collector ss).run symbols =
        (ss, symbols.insertAll (Program.occurrences ss)) := by
  refine Statement.ind ?_ ?_ ?_ ?_ ?_ ?_ ?_ ?_
  · intro test yes line ih symbols
    have hEnter : (collector.enterStatement (.ifThen test yes line)).run symbols =
        ((), symbols) := rfl
    rw [Statement.walk, Statement.occurrences, insertAll_append, run_bind_of_eq hEnter,
      run_bind_of_eq (walk_expression test symbols), run_bind_of_eq (ih _)]
    rfl
  · intro test yes no line ihYes ihNo symbols
    have hEnter : (collector.enterStatement (.ifElse test yes no line)).run symbols =
        ((), symbols) := rfl
    rw [Statement.walk, Statement.occurrences, insertAll_append, insertAll_append,
      run_bind_of_eq hEnter, run_bind_of_eq (walk_expression test symbols),
      run_bind_of_eq (ihYes _), run_bind_of_eq (ihNo _)]
    rfl
  · intro body test line ih symbols
    have hEnter : (collector.enterStatement (.loop body test line)).run symbols =
        ((), symbols) := rfl
    rw [Statement.walk, Statement.occurrences, insertAll_append, run_bind_of_eq hEnter,
      run_bind_of_eq (ih symbols), run_bind_of_eq (walk_expression test _)]
    rfl
  · intro name value line symbols
    have hEnter : (collector.enterStatement (.assign name value line)).run symbols =
        ((), symbols.insert name line) := rfl
    rw [Statement.walk, Statement.occurrences, insertAll_cons, run_bind_of_eq hEnter,
      run_bind_of_eq (walk_expression value _)]
    rfl
  · intro name line symbols
    rfl
  · intro value line symbols
    have hEnter : (collector.enterStatement (.write value line)).run symbols =
        ((), symbols) := rfl
    rw [Statement.walk, Statement.occurrences, run_bind_of_eq hEnter,
      run_bind_of_eq (walk_expression value symbols)]
    rfl
  · intro symbols
    rfl
  · intro first rest ihFirst ihRest symbols
    rw [Program.walk, Program.occurrences, insertAll_append, run_bind_of_eq (ihFirst symbols),
      run_bind_of_eq (ihRest _)]
    rfl

/-- **The symbol table of a program holds its names**, in the order in which they occur. -/
theorem ofProgram_eq (p : Program) : ofProgram p = insertAll {} (Program.occurrences p) := by
  rw [ofProgram, walk_all.2 p]

/-! ### Sizes and locations -/

theorem length_insertInto_le (name : String) (line : Nat) (entries : List Symbol) :
    (insertInto name line entries).length ≤ entries.length + 1 := by
  induction entries with
  | nil => exact Nat.le_refl 1
  | cons symbol rest ih =>
    rw [insertInto]
    split
    · exact Nat.le_succ _
    · exact Nat.succ_le_succ ih

theorem size_insertAll_le (symbols : Symbols) (names : List (String × Nat)) :
    (symbols.insertAll names).size ≤ symbols.size + names.length := by
  induction names generalizing symbols with
  | nil => exact Nat.le_refl _
  | cons name names ih =>
    have hFirst : (symbols.insert name.1 name.2).size ≤ symbols.size + 1 :=
      length_insertInto_le name.1 name.2 symbols.entries
    have hRest := ih (symbols.insert name.1 name.2)
    rw [insertAll_cons, List.length_cons]
    omega

theorem size_ofProgram_le (p : Program) :
    (ofProgram p).size ≤ (Program.occurrences p).length := by
  rw [ofProgram_eq]
  have h := size_insertAll_le {} (Program.occurrences p)
  rwa [show Symbols.size {} = 0 from rfl, Nat.zero_add] at h

theorem exists_location {symbols : Symbols} {name : String} :
    (∃ location, symbols.location? name = some location) ↔
      name ∈ symbols.entries.map Symbol.name := by
  rw [← Option.isSome_iff_exists, location?, List.findIdx?_isSome, List.any_eq_true]
  simp only [decide_eq_true_eq, List.mem_map]

theorem mem_names_insertInto {name other : String} {line : Nat} {entries : List Symbol} :
    name ∈ (insertInto other line entries).map Symbol.name ↔
      name = other ∨ name ∈ entries.map Symbol.name := by
  induction entries with
  | nil => simp [insertInto]
  | cons symbol rest ih =>
    rw [insertInto]
    split
    next hName => simp [hName]
    next => rw [List.map_cons, List.mem_cons, ih, List.map_cons, List.mem_cons, or_left_comm]

theorem mem_names_insertAll {name : String} {symbols : Symbols} {names : List (String × Nat)} :
    name ∈ (symbols.insertAll names).entries.map Symbol.name ↔
      name ∈ symbols.entries.map Symbol.name ∨ name ∈ names.map Prod.fst := by
  induction names generalizing symbols with
  | nil => simp
  | cons first names ih =>
    have hFirst := @mem_names_insertInto name first.1 first.2 symbols.entries
    rw [insertAll_cons, ih, insert, hFirst, List.map_cons, List.mem_cons, or_left_comm, or_assoc]

/-- **The symbol table of a program gives a location to the names that occur**, and to no others. -/
theorem location?_ofProgram {p : Program} {name : String} :
    (∃ location, (ofProgram p).location? name = some location) ↔
      name ∈ (Program.occurrences p).map Prod.fst := by
  rw [exists_location, ofProgram_eq, mem_names_insertAll]
  simp

theorem location?_lt_size {symbols : Symbols} {name : String} {location : Nat}
    (h : symbols.location? name = some location) : location < symbols.size :=
  (List.findIdx?_eq_some_iff_getElem.mp h).1

end Symbols

end Tiny
