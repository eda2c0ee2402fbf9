import Tiny.Code

/-!
# Code in pieces

The code of a program put together from the code of its parts, each placed behind the one before.
Where a branch goes is said by its distance, which is counted from the instruction behind it and
follows from the lengths of the parts in between.  Nothing is reserved and nothing is filled in
later.

* `Assembly.program`: the code of a whole program, in the order of the locations.
* `Covered`: a tree that has code: nothing in it is malformed, and every name has a location.
* `Lands`: the branches of a statement whose code starts at some location go where they should.
* `lands_of_split`: they do, wherever the code of the statement stands in a longer code.
-/

namespace Tiny

/-! ### Trees that have code -/

namespace Expression

/-- Nothing in the expression is malformed, and every name in it has a location. -/
def Covered (symbols : Symbols) : Expression → Prop
  | .binary _ lhs rhs _ _ => lhs.Covered symbols ∧ rhs.Covered symbols
  | .constant _ _ _ => True
  | .reference name _ _ => ∃ location, symbols.location? name = some location
  | .malformed _ => False

end Expression

mutual

/-- Every expression in the statement is covered, and every name has a location. -/
def Statement.Covered (symbols : Symbols) : Statement → Prop
  | .ifThen test yes _ => test.Covered symbols ∧ Program.Covered symbols yes
  | .ifElse test yes no _ =>
    test.Covered symbols ∧ Program.Covered symbols yes ∧ Program.Covered symbols no
  | .loop body test _ => Program.Covered symbols body ∧ test.Covered symbols
  | .assign name value _ =>
    value.Covered symbols ∧ ∃ location, symbols.location? name = some location
  | .read name _ => ∃ location, symbols.location? name = some location
  | .write value _ => value.Covered symbols

/-- Every statement of the sequence is covered. -/
def Program.Covered (symbols : Symbols) : List Statement → Prop
  | [] => True
  | statement :: rest => statement.Covered symbols ∧ Program.Covered symbols rest

end

namespace Assembly

open Register

/-! ### The code of the parts -/

/-- An instruction between registers. -/
def between (op : Opcode) (r s t : Nat) : Instruction :=
  ⟨op, .ofNat r, .ofNat s, .ofNat t⟩

/-- An instruction with an offset from a base register. -/
def indexed (op : Opcode) (r : Nat) (offset : Int32) (base : Nat) : Instruction :=
  ⟨op, .ofNat r, offset, .ofNat base⟩

/-- An instruction that goes on `distance` locations behind the next one. -/
def branch (op : Opcode) (r : Nat) (distance : Int) : Instruction :=
  indexed op r (.ofInt distance) pc

/-- The location of a variable as an offset. -/
def offset (symbols : Symbols) (name : String) : Int32 :=
  .ofNat ((symbols.location? name).getD 0)

/-- The code of a comparison. -/
def comparison (jump : Opcode) : List Instruction :=
  [between .sub ac ac1 ac, indexed jump ac 2 pc, indexed .ldc ac 0 ac, indexed .lda pc 1 pc,
   indexed .ldc ac 1 ac]

/-- The code of an operator. -/
def operator : Operator → List Instruction
  | .add => [between .add ac ac1 ac]
  | .sub => [between .sub ac ac1 ac]
  | .mul => [between .mul ac ac1 ac]
  | .div => [between .div ac ac1 ac]
  | .less => comparison .jlt
  | .equal => comparison .jeq

/-- The code of an expression while `depth` temporaries are in use. -/
def expression (symbols : Symbols) (depth : Nat) : Expression → List Instruction
  | .constant value _ _ => [indexed .ldc ac value 0]
  | .reference name _ _ => [indexed .ld ac (offset symbols name) gp]
  | .binary op lhs rhs _ _ =>
    expression symbols depth lhs ++ indexed .st ac (Code.temporary depth) mp ::
      (expression symbols (depth + 1) rhs ++ indexed .ld ac1 (Code.temporary depth) mp ::
        operator op)
  | .malformed _ => []

mutual

/-- The code of a statement. -/
def statement (symbols : Symbols) : Statement → List Instruction
  | .ifThen test yes _ =>
    expression symbols 0 test ++
      branch .jeq ac (statements symbols yes).length :: statements symbols yes
  | .ifElse test yes no _ =>
    expression symbols 0 test ++
      branch .jeq ac ((statements symbols yes).length + 1) :: (statements symbols yes ++
        branch .lda pc (statements symbols no).length :: statements symbols no)
  | .loop body test _ =>
    statements symbols body ++ (expression symbols 0 test ++
      [branch .jeq ac
        (-((statements symbols body).length + (expression symbols 0 test).length + 1))])
  | .assign name value _ =>
    expression symbols 0 value ++ [indexed .st ac (offset symbols name) gp]
  | .read name _ => [between .input ac 0 0, indexed .st ac (offset symbols name) gp]
  | .write value _ => expression symbols 0 value ++ [between .output ac 0 0]

/-- The code of a sequence of statements. -/
def statements (symbols : Symbols) : List Statement → List Instruction
  | [] => []
  | first :: rest => statement symbols first ++ statements symbols rest

end

/-- The code in front of every program. -/
def opening : List Instruction :=
  [indexed .ld mp 0 ac, indexed .st ac 0 ac]

/-- The code of a program. -/
def program (symbols : Symbols) (program : Program) : List Instruction :=
  opening ++ (statements symbols program ++ [Instruction.halt])

/-! ### Locations -/

/-- The instructions of some code with their locations, the first of which is `base`. -/
def located (base : Nat) : List Instruction → List (Nat × Instruction)
  | [] => []
  | first :: rest => (base, first) :: located (base + 1) rest

@[simp] theorem located_nil (base : Nat) : located base [] = [] := rfl

@[simp] theorem located_cons (base : Nat) (first : Instruction) (rest : List Instruction) :
    located base (first :: rest) = (base, first) :: located (base + 1) rest := rfl

theorem located_append (base : Nat) (code more : List Instruction) :
    located base (code ++ more) = located base code ++ located (base + code.length) more := by
  induction code generalizing base with
  | nil => simp
  | cons first rest ih =>
    rw [List.cons_append, located_cons, located_cons, ih, List.cons_append, List.length_cons,
      show base + 1 + rest.length = base + (rest.length + 1) by omega]

theorem mem_located {base : Nat} {code : List Instruction} {location : Nat}
    {instruction : Instruction} :
    (location, instruction) ∈ located base code ↔
      base ≤ location ∧ code[location - base]? = some instruction := by
  induction code generalizing base with
  | nil => simp
  | cons first rest ih =>
    rw [located_cons, List.mem_cons, ih, Prod.mk.injEq]
    constructor
    · rintro (⟨rfl, rfl⟩ | ⟨h, found⟩)
      · simp
      · refine ⟨by omega, ?_⟩
        rw [show location - base = location - (base + 1) + 1 by omega]
        simpa using found
    · rintro ⟨h, found⟩
      by_cases here : location = base
      · subst here
        rw [Nat.sub_self, List.getElem?_cons_zero] at found
        exact .inl ⟨rfl, (Option.some.inj found).symm⟩
      · rw [show location - base = location - (base + 1) + 1 by omega] at found
        exact .inr ⟨by omega, by simpa using found⟩

/-- **Some code has its locations in order, and each only once.** -/
theorem pairwise_located (base : Nat) (code : List Instruction) :
    (located base code).Pairwise fun a b => a.1 < b.1 := by
  induction code generalizing base with
  | nil => exact .nil
  | cons first rest ih =>
    refine .cons ?_ (ih _)
    rintro ⟨location, instruction⟩ h
    have := (mem_located.mp h).1
    simp only
    omega

theorem map_fst_located (base : Nat) (code : List Instruction) :
    (located base code).map Prod.fst = List.range' base code.length := by
  induction code generalizing base with
  | nil => rfl
  | cons first rest ih => rw [located_cons, List.map_cons, ih, List.length_cons, List.range'_succ]

/-! ### Where the branches go -/

/-- The branches of a statement whose code starts at location `base` of `code`.  A branch is read
as the machine reads it: it goes on at its offset behind the next location. -/
def Lands (symbols : Symbols) (code : List Instruction) (base : Nat) : Statement → Prop
  | .ifThen test yes _ =>
    -- behind the sequence that is passed over
    ∃ d : Int32, code[base + (expression symbols 0 test).length]? = some (indexed .jeq ac d pc) ∧
      (base + (expression symbols 0 test).length + 1 : Nat) + d.toInt =
        (base + (expression symbols 0 test).length + 1 + (statements symbols yes).length : Nat)
  | .ifElse test yes no _ =>
    -- to the first instruction of the second sequence, and from the end of the first one behind it
    ∃ d d' : Int32,
      code[base + (expression symbols 0 test).length]? = some (indexed .jeq ac d pc) ∧
      (base + (expression symbols 0 test).length + 1 : Nat) + d.toInt =
        (base + (expression symbols 0 test).length + 1 + (statements symbols yes).length + 1 :
          Nat) ∧
      code[base + (expression symbols 0 test).length + 1 + (statements symbols yes).length]? =
        some (indexed .lda pc d' pc) ∧
      (base + (expression symbols 0 test).length + 1 + (statements symbols yes).length + 1 : Nat) +
          d'.toInt =
        (base + (expression symbols 0 test).length + 1 + (statements symbols yes).length + 1 +
          (statements symbols no).length : Nat)
  | .loop body test _ =>
    -- back to the first instruction of the body
    ∃ d : Int32,
      code[base + (statements symbols body).length + (expression symbols 0 test).length]? =
        some (indexed .jeq ac d pc) ∧
      (base + (statements symbols body).length + (expression symbols 0 test).length + 1 : Nat) +
        d.toInt = base
  | _ => True

theorem toInt_ofInt_of_abs {d : Int} (low : -2147483648 ≤ d) (high : d < 2147483648) :
    (Int32.ofInt d).toInt = d :=
  Int32.toInt_ofInt_of_le (by simpa using low) (by simpa using high)

/-- **Branches land where they should**: in code that is not too long, at every statement. -/
theorem lands_of_split {symbols : Symbols} {code before after : List Instruction}
    {s : Statement} (split : code = before ++ (statement symbols s ++ after))
    (small : code.length < 2147483648) : Lands symbols code before.length s := by
  have total : before.length + (statement symbols s).length ≤ code.length := by
    rw [split, List.length_append, List.length_append]; omega
  have at_ : ∀ j, j < (statement symbols s).length →
      code[before.length + j]? = (statement symbols s)[j]? := by
    intro j hj
    rw [split, List.getElem?_append_right (by omega), List.getElem?_append_left (by omega),
      Nat.add_sub_cancel_left]
  cases s with
  | ifThen test yes line =>
    simp only [statement, List.length_append, List.length_cons] at total at_
    refine ⟨.ofInt (statements symbols yes).length, ?_, ?_⟩
    · rw [at_ _ (by omega), List.getElem?_append_right (by omega), Nat.sub_self]
      rfl
    · rw [toInt_ofInt_of_abs (by omega) (by omega)]
      omega
  | ifElse test yes no line =>
    simp only [statement, List.length_append, List.length_cons] at total at_
    refine ⟨.ofInt ((statements symbols yes).length + 1), .ofInt (statements symbols no).length,
      ?_, ?_, ?_, ?_⟩
    · rw [at_ _ (by omega), List.getElem?_append_right (by omega), Nat.sub_self]
      rfl
    · rw [toInt_ofInt_of_abs (by omega) (by omega)]
      omega
    · rw [Nat.add_assoc, Nat.add_assoc, at_ _ (by omega), List.getElem?_append_right (by omega),
        show (expression symbols 0 test).length + (1 + (statements symbols yes).length) -
          (expression symbols 0 test).length = (statements symbols yes).length + 1 by omega,
        List.getElem?_cons_succ, List.getElem?_append_right (by omega), Nat.sub_self]
      rfl
    · rw [toInt_ofInt_of_abs (by omega) (by omega)]
      omega
  | loop body test line =>
    simp only [statement, List.length_append, List.length_cons, List.length_nil] at total at_
    refine ⟨.ofInt (-((statements symbols body).length + (expression symbols 0 test).length + 1)),
      ?_, ?_⟩
    · rw [Nat.add_assoc, at_ _ (by omega), List.getElem?_append_right (by omega),
        List.getElem?_append_right (by omega), Nat.add_sub_cancel_left, Nat.sub_self]
      rfl
    · rw [toInt_ofInt_of_abs (by omega) (by omega)]
      omega
  | assign name value line => trivial
  | read name line => trivial
  | write value line => trivial

end Assembly

end Tiny
