import Tiny.Proofs.Safety
import Tiny.Proofs.Semantics

/-!
# Code does what programs mean

A configuration shows a state if the variables stand at their locations and input and output agree.
The code of a statement leads from a configuration that shows the state before to one that shows
the state after, or to the instruction that fails.  While an expression is computed, the variables
and the operands that wait stay as they are.

* `computes_expression`: the code of an expression computes its value.
* `results_statements`: the code of a sequence of statements has its outcome.
* `outcome_or_lasts`: code without an outcome goes on for ever.
-/

namespace Tiny

namespace ProgramFailure

/-- The fault of the machine for a failure at a location. -/
def fault : ProgramFailure → Int32 → MachineFault
  | .divisionByZero => .divisionByZero
  | .inputExhausted => .inputExhausted

end ProgramFailure

namespace Tick

open Register Assembly

/-! ### Code in place -/

/-- Some code stands in the memory from location `l` on. -/
def CodeAt (code : Vector Instruction 1024) (l : Nat) (piece : List Instruction) : Prop :=
  ∀ (j : Nat) (i : Instruction), piece[j]? = some i → code[l + j]? = some i

section CodeAt

variable {code : Vector Instruction 1024} {l : Nat}

theorem CodeAt.head {i : Instruction} {rest : List Instruction} (h : CodeAt code l (i :: rest)) :
    code[l]? = some i :=
  h 0 i rfl

theorem CodeAt.tail {i : Instruction} {rest : List Instruction} (h : CodeAt code l (i :: rest)) :
    CodeAt code (l + 1) rest := by
  intro j i' hj
  rw [Nat.add_right_comm]
  exact h (j + 1) i' hj

theorem CodeAt.left {piece more : List Instruction} (h : CodeAt code l (piece ++ more)) :
    CodeAt code l piece := by
  intro j i hj
  have hIn : j < piece.length := (List.getElem?_eq_some_iff.mp hj).1
  exact h j i (by rw [List.getElem?_append_left hIn, hj])

theorem CodeAt.right {piece more : List Instruction} (h : CodeAt code l (piece ++ more)) :
    CodeAt code (l + piece.length) more := by
  intro j i hj
  rw [Nat.add_assoc]
  refine h (piece.length + j) i ?_
  rw [List.getElem?_append_right (Nat.le_add_right _ _), Nat.add_sub_cancel_left, hj]

end CodeAt

/-! ### States and configurations -/

/-- The variables of a store stand at their locations. -/
def Shows (symbols : Symbols) (store : Store) (data : Vector Int32 1024) : Prop :=
  ∀ (name : String) (l : Nat), symbols.location? name = some l → data[l]? = some (store name)

/-- The configuration shows the state. -/
structure Matches (symbols : Symbols) (state : State) (c : Config) : Prop where
  shows : Shows symbols state.store c.data
  input : c.input = state.input
  output : c.output = state.output

/-- Two data memories agree on the variables and on the first `depth` temporaries. -/
def Keeps (symbols : Symbols) (depth : Nat) (data data' : Vector Int32 1024) : Prop :=
  ∀ a : Nat, a < symbols.size ∨ 1024 ≤ a + depth → data'[a]? = data[a]?

/-- The machine comes to an instruction that fails. -/
def Stops (code : Vector Instruction 1024) (c : Config) (failure : ProgramFailure) : Prop :=
  ∃ (n : Nat) (c' : Config), Goes n (c.run code) (c'.run code) ∧
    step (c'.run code) = .error (failure.fault (.ofNat c'.pc)) (c'.next.run code)

/-- The machine comes to location `target` with the value in the accumulator, and has kept the
variables and the first `depth` temporaries; or it fails as the value does. -/
def Computes (code : Vector Instruction 1024) (symbols : Symbols) (depth : Nat) (c : Config)
    (target : Nat) : Except ProgramFailure Int32 → Prop
  | .ok value => ∃ (n : Nat) (c' : Config), Goes n (c.run code) (c'.run code) ∧ c'.pc = target ∧
      c'.ac = value ∧ Keeps symbols depth c.data c'.data ∧ c'.input = c.input ∧
      c'.output = c.output
  | .error failure => Stops code c failure

/-- The machine comes to location `target` and shows the state of the outcome, or it fails as the
outcome does. -/
def Results (code : Vector Instruction 1024) (symbols : Symbols) (c : Config) (target : Nat) :
    Except ProgramFailure State → Prop
  | .ok state => ∃ (n : Nat) (c' : Config), Goes n (c.run code) (c'.run code) ∧ c'.pc = target ∧
      Matches symbols state c'
  | .error failure => Stops code c failure

variable {code : Vector Instruction 1024} {symbols : Symbols} {c c' : Config} {n depth : Nat}

theorem Stops.after {failure : ProgramFailure} (h : Goes n (c.run code) (c'.run code))
    (h' : Stops code c' failure) : Stops code c failure := by
  obtain ⟨m, last, hGoes, hStep⟩ := h'
  exact ⟨n + m, last, h.trans hGoes, hStep⟩

theorem Results.after {target : Nat} {outcome : Except ProgramFailure State}
    (h : Goes n (c.run code) (c'.run code)) (h' : Results code symbols c' target outcome) :
    Results code symbols c target outcome := by
  cases outcome with
  | ok state =>
    obtain ⟨m, last, hGoes, hPc, hMatches⟩ := h'
    exact ⟨n + m, last, h.trans hGoes, hPc, hMatches⟩
  | error failure => exact Stops.after h h'

theorem Shows.keeps {store : Store} {data data' : Vector Int32 1024}
    (h : Shows symbols store data) (hKeeps : Keeps symbols depth data data') :
    Shows symbols store data' := by
  intro name l hl
  rw [hKeeps l (.inl (Symbols.location?_lt_size hl)), h name l hl]

theorem Keeps.refl (data : Vector Int32 1024) : Keeps symbols depth data data :=
  fun _ _ => rfl

theorem Keeps.trans {data data' data'' : Vector Int32 1024} (h : Keeps symbols depth data data')
    (h' : Keeps symbols depth data' data'') : Keeps symbols depth data data'' := by
  intro a ha
  rw [h' a ha, h a ha]

theorem Keeps.mono {data data' : Vector Int32 1024} (h : Keeps symbols (depth + 1) data data') :
    Keeps symbols depth data data' := by
  intro a ha
  exact h a (by omega)

/-- A new temporary disturbs neither the variables nor the temporaries in use. -/
theorem keeps_set (data : Vector Int32 1024) (value : Int32)
    (room : symbols.size + (depth + 1) ≤ 1024) :
    Keeps symbols depth data (data.set (1023 - depth) value) := by
  intro a ha
  rw [Vector.getElem?_set, if_neg (by omega)]

/-! ### Expressions -/

theorem goes_comparison {jump : Opcode} {holds : Int32 → Bool}
    (hJump : condition? jump = some holds) (at_ : CodeAt code c.pc (comparison jump)) :
    ∃ n, Goes n (c.run code)
      ({ c with pc := c.pc + 5, ac := if holds (c.ac1 - c.ac) then 1 else 0 }.run code) := by
  let c₁ : Config := { c.next with ac := c.ac1 - c.ac }
  have hSub : step (c.run code) = .ok .running (c₁.run code) := step_combine rfl at_.head
  have hTwo : (2 : Int32).toInt = 2 := by decide
  have hOne : (1 : Int32).toInt = 1 := by decide
  have hTarget : (c₁.pc + 1 : Nat) + (2 : Int32).toInt = (c.pc + 4 : Nat) := by
    show ((c.pc + 1 + 1 : Nat) : Int) + _ = _
    omega
  have hTest := step_jump hJump hTarget at_.tail.head
  by_cases h : holds c₁.ac = true
  · rw [if_pos h] at hTest
    have hLoad := step_constant (c := { c₁ with pc := c.pc + 4 }) at_.tail.tail.tail.tail.head
    rw [if_pos h]
    exact ⟨3, .head hSub (.head hTest (.single hLoad))⟩
  · rw [if_neg h] at hTest
    have hLoad := step_constant (c := { c₁ with pc := c₁.pc + 1 }) at_.tail.tail.head
    have hEnd : (c.pc + 3 + 1 : Nat) + (1 : Int32).toInt = (c.pc + 5 : Nat) := by omega
    have hSkip := step_goto (c := { c₁ with pc := c.pc + 3, ac := 0 }) hEnd
      at_.tail.tail.tail.head
    rw [if_neg h]
    exact ⟨4, .head hSub (.head hTest (.head hLoad (.single hSkip)))⟩

/-- The code of an operator applies it to the accumulators. -/
theorem computes_operator (symbols : Symbols) (depth : Nat) (op : Operator)
    (at_ : CodeAt code c.pc (operator op)) :
    Computes code symbols depth c (c.pc + (operator op).length) (op.apply c.ac1 c.ac) := by
  cases op with
  | add => exact ⟨1, _, .single (step_combine rfl at_.head), rfl, rfl, .refl _, rfl, rfl⟩
  | sub => exact ⟨1, _, .single (step_combine rfl at_.head), rfl, rfl, .refl _, rfl, rfl⟩
  | mul => exact ⟨1, _, .single (step_combine rfl at_.head), rfl, rfl, .refl _, rfl, rfl⟩
  | div =>
    rw [Operator.apply]
    by_cases hZero : c.ac = 0
    · rw [if_pos hZero]
      exact ⟨0, c, .refl _, step_div_zero at_.head hZero⟩
    · rw [if_neg hZero]
      exact ⟨1, _, .single (step_div at_.head hZero), rfl, rfl, .refl _, rfl, rfl⟩
  | less =>
    obtain ⟨n, hGoes⟩ := goes_comparison rfl at_
    refine ⟨n, _, hGoes, rfl, ?_, .refl _, rfl, rfl⟩
    simp
  | equal =>
    obtain ⟨n, hGoes⟩ := goes_comparison rfl at_
    refine ⟨n, _, hGoes, rfl, ?_, .refl _, rfl, rfl⟩
    have hEqual : c.ac1 - c.ac = 0 ↔ c.ac1 = c.ac := by
      rw [Int32.sub_eq_iff_eq_add, Int32.zero_add]
    simp [hEqual]

theorem Computes.after {target : Nat} {outcome : Except ProgramFailure Int32}
    (h : Goes n (c.run code) (c'.run code)) (hKeeps : Keeps symbols depth c.data c'.data)
    (hInput : c'.input = c.input) (hOutput : c'.output = c.output)
    (h' : Computes code symbols depth c' target outcome) :
    Computes code symbols depth c target outcome := by
  cases outcome with
  | ok value =>
    obtain ⟨m, last, hGoes, hPc, hValue, hLast, hIn, hOut⟩ := h'
    exact ⟨n + m, last, h.trans hGoes, hPc, hValue, hKeeps.trans hLast, hIn.trans hInput,
      hOut.trans hOutput⟩
  | error failure => exact Stops.after h h'

/-- The left operand of an operation is computed and put into the next temporary. -/
theorem goes_push {l : Nat} {a : Int32} {rest : List Instruction}
    (left : Computes code symbols depth c l (.ok a))
    (at_ : CodeAt code l (Assembly.indexed .st ac (Code.temporary depth) mp :: rest))
    (room : symbols.size + (depth + 1) ≤ 1024) :
    ∃ (n : Nat) (c' : Config), Goes n (c.run code) (c'.run code) ∧ c'.pc = l + 1 ∧
      c'.data[1023 - depth]? = some a ∧ Keeps symbols depth c.data c'.data ∧
      c'.input = c.input ∧ c'.output = c.output := by
  obtain ⟨n, c₁, hGoes, rfl, rfl, hKeeps, hInput, hOutput⟩ := left
  have hPush := step_storeTemporary (show depth < 1024 by omega) at_.head
  refine ⟨n + 1, _, hGoes.trans (.single hPush), rfl, ?_, hKeeps.trans (keeps_set _ _ room),
    hInput, hOutput⟩
  show (c₁.data.set (1023 - depth) c₁.ac)[1023 - depth]? = some c₁.ac
  rw [Vector.getElem?_set, if_pos rfl]

/-- **The code of an expression computes its value.** -/
theorem computes_expression {store : Store} {e : Expression} {outcome : Except ProgramFailure Int32}
    (h : e.Evaluates store outcome) (covered : e.Covered symbols)
    (at_ : CodeAt code c.pc (expression symbols depth e))
    (room : symbols.size + (depth + e.temporaries) ≤ 1024) (shows : Shows symbols store c.data) :
    Computes code symbols depth c (c.pc + (expression symbols depth e).length) outcome := by
  induction h generalizing depth c with
  | @constant value line type =>
    exact ⟨1, _, .single (step_constant at_.head), rfl, rfl, .refl _, rfl, rfl⟩
  | @reference name line type =>
    obtain ⟨l, hl⟩ := covered
    have hSmall : l < 1024 := by
      have := Symbols.location?_lt_size hl
      omega
    have hCode := at_.head
    rw [offset_eq hl] at hCode
    refine ⟨1, _, .single (step_loadVariable hSmall hCode), rfl, ?_, .refl _, rfl, rfl⟩
    have hData := shows name l hl
    rw [Vector.getElem?_eq_getElem hSmall] at hData
    exact Option.some.inj hData
  | @binary op lhs rhs line type a b _ _ ihl ihr =>
    rw [Expression.temporaries] at room
    rw [expression] at at_
    have left := ihl covered.1 at_.left (by omega) shows
    obtain ⟨n, c₁, hGoes, hPc, hTop, hKeeps, hInput, hOutput⟩ :=
      goes_push left at_.right (by omega)
    have at₁ : CodeAt code c₁.pc _ := hPc ▸ at_.right.tail
    have right := ihr covered.2 at₁.left (by omega) (shows.keeps hKeeps)
    obtain ⟨m, c₂, hGoes₂, hPc₂, rfl, hKeeps₂, hInput₂, hOutput₂⟩ := right
    have at₂ : CodeAt code c₂.pc _ := hPc₂ ▸ at₁.right
    have hPop := step_loadTemporary (show depth < 1024 by omega) at₂.head
    have hLeft : c₂.data[1023 - depth] = a := by
      have := hKeeps₂ (1023 - depth) (.inr (by omega))
      rw [hTop, Vector.getElem?_eq_getElem (by omega)] at this
      exact Option.some.inj this
    rw [hLeft] at hPop
    have hOperator := computes_operator (c := { c₂.next with ac1 := a }) symbols depth op at₂.tail
    have hLength : c.pc + (expression symbols depth (.binary op lhs rhs line type)).length =
        c₂.pc + 1 + (operator op).length := by
      rw [hPc₂, hPc, expression]
      simp only [List.length_append, List.length_cons]
      omega
    rw [hLength]
    exact .after ((hGoes.trans hGoes₂).trans (.single hPop)) (hKeeps.trans hKeeps₂.mono)
      (hInput₂.trans hInput) (hOutput₂.trans hOutput) hOperator
  | @leftFails op lhs rhs line type failure _ ih =>
    rw [Expression.temporaries] at room
    rw [expression] at at_
    exact ih covered.1 at_.left (by omega) shows
  | @rightFails op lhs rhs line type a failure _ _ ihl ihr =>
    rw [Expression.temporaries] at room
    rw [expression] at at_
    have left := ihl covered.1 at_.left (by omega) shows
    obtain ⟨n, c₁, hGoes, hPc, -, hKeeps, -, -⟩ := goes_push left at_.right (by omega)
    have at₁ : CodeAt code c₁.pc _ := hPc ▸ at_.right.tail
    exact Stops.after hGoes (ihr covered.2 at₁.left (by omega) (shows.keeps hKeeps))

/-! ### The parts of statements -/

/-- A value that a statement needs is computed, and the state stays as it is. -/
theorem goes_value {state : State} {e : Expression} {value : Int32}
    (h : e.Evaluates state.store (.ok value)) (covered : e.Covered symbols)
    (at_ : CodeAt code c.pc (expression symbols 0 e))
    (room : symbols.size + e.temporaries ≤ 1024) (shown : Matches symbols state c) :
    ∃ (n : Nat) (c' : Config), Goes n (c.run code) (c'.run code) ∧
      c'.pc = c.pc + (expression symbols 0 e).length ∧ c'.ac = value ∧
      Matches symbols state c' := by
  obtain ⟨n, c', hGoes, hPc, hValue, hKeeps, hInput, hOutput⟩ :=
    computes_expression h covered at_ (by omega) shown.shows
  exact ⟨n, c', hGoes, hPc, hValue, shown.shows.keeps hKeeps, hInput.trans shown.input,
    hOutput.trans shown.output⟩

theorem stops_value {state : State} {e : Expression} {failure : ProgramFailure}
    (h : e.Evaluates state.store (.error failure)) (covered : e.Covered symbols)
    (at_ : CodeAt code c.pc (expression symbols 0 e))
    (room : symbols.size + e.temporaries ≤ 1024) (shown : Matches symbols state c) :
    Stops code c failure :=
  computes_expression h covered at_ (by omega) shown.shows

/-- The branch behind a test is taken if the test fails. -/
theorem step_branch {target : Nat} {distance : Int}
    (h : code[c.pc]? = some (branch .jeq ac distance))
    (hTarget : (c.pc + 1 : Nat) + distance = target) (here : c.pc < 1024) (there : target < 1024) :
    step (c.run code) =
      .ok .running ({ c with pc := if c.ac = 0 then target else c.pc + 1 }.run code) := by
  have hJump := step_jump rfl (toInt_branch hTarget here there) h
  simpa using hJump

/-- Names have different locations. -/
theorem location?_inj {name other : String} {l : Nat} (h : symbols.location? name = some l)
    (h' : symbols.location? other = some l) : name = other := by
  obtain ⟨hl, hName, -⟩ := List.findIdx?_eq_some_iff_getElem.mp h
  obtain ⟨_, hOther, -⟩ := List.findIdx?_eq_some_iff_getElem.mp h'
  simp only [decide_eq_true_eq] at hName hOther
  exact hName.symm.trans hOther

/-- Storing a word at the location of a variable changes that variable. -/
theorem Shows.set {store : Store} {data : Vector Int32 1024} (shows : Shows symbols store data)
    {name : String} {l : Nat} (h : symbols.location? name = some l) (hl : l < 1024)
    (word : Int32) : Shows symbols (store.set name word) (data.set l word) := by
  intro other m hm
  rw [Vector.getElem?_set, Store.set]
  by_cases hName : other = name
  · subst hName
    obtain rfl : l = m := Option.some.inj (h.symm.trans hm)
    rw [if_pos rfl, if_pos rfl]
  · have hLocation : l ≠ m := by
      rintro rfl
      exact hName (location?_inj hm h)
    rw [if_neg hLocation, if_neg hName]
    exact shows other m hm

theorem step_assign {state : State} {name : String}
    (covered : ∃ location, symbols.location? name = some location)
    (h : code[c.pc]? = some (Assembly.indexed .st ac (offset symbols name) gp))
    (room : symbols.size ≤ 1024) (shown : Matches symbols state c) :
    ∃ c', step (c.run code) = .ok .running (c'.run code) ∧ c'.pc = c.pc + 1 ∧
      Matches symbols { state with store := state.store.set name c.ac } c' := by
  obtain ⟨l, hl⟩ := covered
  have hSmall : l < 1024 := Nat.lt_of_lt_of_le (Symbols.location?_lt_size hl) room
  rw [offset_eq hl] at h
  exact ⟨_, step_storeVariable hSmall h, rfl, shown.shows.set hl hSmall c.ac, shown.input,
    shown.output⟩

/-- A test and the branch behind it lead to one of two locations. -/
theorem goes_test {state : State} {test : Expression} {value : Int32}
    (h : test.Evaluates state.store (.ok value)) (covered : test.Covered symbols)
    {distance : Int} {rest : List Instruction}
    (at_ : CodeAt code c.pc (expression symbols 0 test ++ branch .jeq ac distance :: rest))
    (room : symbols.size + test.temporaries ≤ 1024) (shown : Matches symbols state c)
    {target : Nat}
    (hTarget : (c.pc + (expression symbols 0 test).length + 1 : Nat) + distance = target)
    (here : c.pc + (expression symbols 0 test).length < 1024) (there : target < 1024) :
    ∃ (n : Nat) (c' : Config), Goes (n + 1) (c.run code) (c'.run code) ∧
      c'.pc = (if value = 0 then target else c.pc + (expression symbols 0 test).length + 1) ∧
      Matches symbols state c' := by
  obtain ⟨n, c₁, hGoes, hPc, rfl, shown₁⟩ := goes_value h covered at_.left room shown
  have hBranch := step_branch (c := c₁) (hPc ▸ at_.right.head) (hPc ▸ hTarget) (hPc ▸ here) there
  refine ⟨n, _, hGoes.trans (.single hBranch), ?_, shown₁.shows, shown₁.input, shown₁.output⟩
  rw [← hPc]

/-- Work that ends in front of an unconditional branch goes on where the branch leads. -/
theorem Results.goto {l target : Nat} {distance : Int} {outcome : Except ProgramFailure State}
    (h : Results code symbols c l outcome) (hCode : code[l]? = some (branch .lda pc distance))
    (hTarget : (l + 1 : Nat) + distance = target) (here : l < 1024) (there : target < 1024) :
    Results code symbols c target outcome := by
  cases outcome with
  | error failure => exact h
  | ok state =>
    obtain ⟨n, c', hGoes, rfl, shown⟩ := h
    have hStep := step_goto (toInt_branch hTarget here there) hCode
    exact ⟨n + 1, _, hGoes.trans (.single hStep), rfl, shown.shows, shown.input, shown.output⟩

/-! ### Statements -/

mutual

/-- The code of a statement has its outcome. -/
theorem results_statement : ∀ {s : Statement} {state : State}
    {outcome : Except ProgramFailure State}, s.Executes state outcome → ∀ {c : Config},
    s.Covered symbols → CodeAt code c.pc (statement symbols s) →
    c.pc + (statement symbols s).length < 1024 → symbols.size + s.temporaries ≤ 1024 →
    Matches symbols state c →
    Results code symbols c (c.pc + (statement symbols s).length) outcome
  | _, _, _, @Statement.Executes.ifThenTrue test yes line _ value _ holds hValue rest,
      c, covered, at_, inside, room, shown => by
    rw [Statement.temporaries] at room
    rw [statement] at at_ inside ⊢
    rw [List.length_append, List.length_cons] at inside ⊢
    obtain ⟨n, c', hGoes, hPc, shown'⟩ := goes_test holds covered.1 at_ (by omega) shown
      (show _ = ((c.pc + (expression symbols 0 test).length + 1 +
        (statements symbols yes).length : Nat) : Int) by omega) (by omega) (by omega)
    rw [if_neg hValue] at hPc
    have hRest := results_statements rest covered.2 (c := c') (hPc ▸ at_.right.tail) (by omega)
      (by omega) shown'
    have hEnd : c.pc + ((expression symbols 0 test).length +
        ((statements symbols yes).length + 1)) =
        c'.pc + (statements symbols yes).length := by omega
    rw [hEnd]
    exact hRest.after hGoes
  | _, _, _, @Statement.Executes.ifThenFalse test yes line _ fails,
      c, covered, at_, inside, room, shown => by
    rw [Statement.temporaries] at room
    rw [statement] at at_ inside ⊢
    rw [List.length_append, List.length_cons] at inside ⊢
    obtain ⟨n, c', hGoes, hPc, shown'⟩ := goes_test fails covered.1 at_ (by omega) shown
      (show _ = ((c.pc + ((expression symbols 0 test).length +
        ((statements symbols yes).length + 1)) : Nat) : Int) by omega) (by omega) (by omega)
    exact ⟨n + 1, c', hGoes, hPc, shown'⟩
  | _, _, _, @Statement.Executes.ifThenStops test yes line _ failure stops,
      c, covered, at_, inside, room, shown => by
    rw [Statement.temporaries] at room
    rw [statement] at at_
    exact stops_value stops covered.1 at_.left (by omega) shown
  | _, _, _, @Statement.Executes.ifElseTrue test yes no line _ value _ holds hValue rest,
      c, covered, at_, inside, room, shown => by
    rw [Statement.temporaries] at room
    rw [statement] at at_ inside ⊢
    rw [List.length_append, List.length_cons, List.length_append, List.length_cons] at inside ⊢
    obtain ⟨n, c', hGoes, hPc, shown'⟩ := goes_test holds covered.1 at_ (by omega) shown
      (show _ = ((c.pc + (expression symbols 0 test).length + 1 +
        ((statements symbols yes).length + 1) : Nat) : Int) by omega) (by omega) (by omega)
    rw [if_neg hValue] at hPc
    have at' : CodeAt code c'.pc _ := hPc ▸ at_.right.tail
    have hYes := results_statements rest covered.2.1 at'.left (by omega) (by omega) shown'
    exact (hYes.goto at'.right.head (by omega) (by omega) (by omega)).after hGoes
  | _, _, _, @Statement.Executes.ifElseFalse test yes no line _ _ fails rest,
      c, covered, at_, inside, room, shown => by
    rw [Statement.temporaries] at room
    rw [statement] at at_ inside ⊢
    rw [List.length_append, List.length_cons, List.length_append, List.length_cons] at inside ⊢
    obtain ⟨n, c', hGoes, hPc, shown'⟩ := goes_test fails covered.1 at_ (by omega) shown
      (show _ = ((c.pc + (expression symbols 0 test).length + 1 +
        (statements symbols yes).length + 1 : Nat) : Int) by omega) (by omega) (by omega)
    rw [if_pos rfl] at hPc
    have hNo := results_statements rest covered.2.2 (c := c') (hPc ▸ at_.right.tail.right.tail)
      (by omega) (by omega) shown'
    have hEnd : c.pc + ((expression symbols 0 test).length +
        ((statements symbols yes).length + ((statements symbols no).length + 1) + 1)) =
        c'.pc + (statements symbols no).length := by omega
    rw [hEnd]
    exact hNo.after hGoes
  | _, _, _, @Statement.Executes.ifElseStops test yes no line _ failure stops,
      c, covered, at_, inside, room, shown => by
    rw [Statement.temporaries] at room
    rw [statement] at at_
    exact stops_value stops covered.1 at_.left (by omega) shown
  | _, _, _, @Statement.Executes.loopDone body test line _ after value first holds hValue,
      c, covered, at_, inside, room, shown => by
    rw [Statement.temporaries] at room
    rw [statement] at at_ inside ⊢
    rw [List.length_append, List.length_append, List.length_singleton] at inside ⊢
    obtain ⟨m, c₁, hBody, hPc₁, shown₁⟩ :=
      results_statements first covered.1 at_.left (by omega) (by omega) shown
    obtain ⟨n, c₂, hTest, hPc₂, shown₂⟩ := goes_test holds covered.2
      (c := c₁) (hPc₁ ▸ at_.right) (by omega) shown₁
      (show _ = ((c.pc : Nat) : Int) by omega) (by omega) (by omega)
    rw [if_neg hValue] at hPc₂
    exact ⟨_, c₂, hBody.trans hTest, by omega, shown₂⟩
  | _, _, _, @Statement.Executes.loopAgain body test line _ after _ first fails rest,
      c, covered, at_, inside, room, shown => by
    have hTemps := room
    rw [Statement.temporaries] at hTemps
    have at' := at_
    have inside' := inside
    rw [statement] at at' inside'
    rw [List.length_append, List.length_append, List.length_singleton] at inside'
    obtain ⟨m, c₁, hBody, hPc₁, shown₁⟩ :=
      results_statements first covered.1 at'.left (by omega) (by omega) shown
    obtain ⟨n, c₂, hTest, hPc₂, shown₂⟩ := goes_test fails covered.2
      (c := c₁) (hPc₁ ▸ at'.right) (by omega) shown₁
      (show _ = ((c.pc : Nat) : Int) by omega) (by omega) (by omega)
    rw [if_pos rfl] at hPc₂
    -- the machine is back at the body, in the state that the body has left
    have hAgain := results_statement rest covered (c := c₂) (hPc₂ ▸ at_) (hPc₂ ▸ inside) room shown₂
    rw [hPc₂] at hAgain
    exact hAgain.after (hBody.trans hTest)
  | _, _, _, @Statement.Executes.loopStops body test line _ after failure first stops,
      c, covered, at_, inside, room, shown => by
    rw [Statement.temporaries] at room
    rw [statement] at at_ inside
    rw [List.length_append] at inside
    obtain ⟨m, c₁, hBody, hPc₁, shown₁⟩ :=
      results_statements first covered.1 at_.left (by omega) (by omega) shown
    exact Stops.after hBody
      (stops_value stops covered.2 (hPc₁ ▸ at_.right.left) (by omega) shown₁)
  | _, _, _, @Statement.Executes.bodyStops body test line _ failure first,
      c, covered, at_, inside, room, shown => by
    rw [Statement.temporaries] at room
    rw [statement] at at_ inside
    rw [List.length_append] at inside
    exact results_statements first covered.1 at_.left (by omega) (by omega) shown
  | _, _, _, @Statement.Executes.assign name value line _ word given,
      c, covered, at_, inside, room, shown => by
    rw [Statement.temporaries] at room
    rw [statement] at at_ ⊢
    rw [List.length_append, List.length_singleton]
    obtain ⟨n, c₁, hGoes, hPc₁, rfl, shown₁⟩ := goes_value given covered.1 at_.left room shown
    obtain ⟨c₂, hStore, hPc₂, shown₂⟩ := step_assign (c := c₁) covered.2 (hPc₁ ▸ at_.right.head)
      (by omega) shown₁
    exact ⟨n + 1, c₂, hGoes.trans (.single hStore), by omega, shown₂⟩
  | _, _, _, @Statement.Executes.assignStops name value line _ failure stops,
      c, covered, at_, inside, room, shown => by
    rw [statement] at at_
    exact stops_value stops covered.1 at_.left room shown
  | _, _, _, @Statement.Executes.read name line state word input given,
      c, covered, at_, inside, room, shown => by
    rw [statement] at at_ ⊢
    have hInput := step_input at_.head (shown.input.trans given)
    have shown₁ : Matches symbols { state with input } { c.next with ac := word, input } :=
      ⟨shown.shows, rfl, shown.output⟩
    obtain ⟨c₂, hStore, hPc₂, shown₂⟩ := step_assign covered at_.tail.head (by omega) shown₁
    exact ⟨2, c₂, .head hInput (.single hStore), hPc₂, shown₂⟩
  | _, _, _, @Statement.Executes.readStops name line _ given,
      c, covered, at_, inside, room, shown => by
    rw [statement] at at_
    exact ⟨0, c, .refl _, step_input_exhausted at_.head (shown.input.trans given)⟩
  | _, _, _, @Statement.Executes.write value line _ word given,
      c, covered, at_, inside, room, shown => by
    rw [statement] at at_ ⊢
    rw [List.length_append, List.length_singleton]
    obtain ⟨n, c₁, hGoes, hPc₁, rfl, shown₁⟩ := goes_value given covered at_.left room shown
    have hOutput := step_output (c := c₁) (hPc₁ ▸ at_.right.head)
    refine ⟨n + 1, _, hGoes.trans (.single hOutput), ?_, shown₁.shows, shown₁.input, ?_⟩
    · show c₁.pc + 1 = _
      omega
    · show c₁.output.push c₁.ac = _
      rw [shown₁.output]
  | _, _, _, @Statement.Executes.writeStops value line _ failure stops,
      c, covered, at_, inside, room, shown => by
    rw [statement] at at_
    exact stops_value stops covered at_.left room shown

/-- The code of a sequence of statements has its outcome. -/
theorem results_statements : ∀ {ss : List Statement} {state : State}
    {outcome : Except ProgramFailure State}, Program.Executes ss state outcome → ∀ {c : Config},
    Program.Covered symbols ss → CodeAt code c.pc (statements symbols ss) →
    c.pc + (statements symbols ss).length < 1024 →
    symbols.size + Program.temporaries ss ≤ 1024 → Matches symbols state c →
    Results code symbols c (c.pc + (statements symbols ss).length) outcome
  | _, _, _, .nil, c, _, _, _, _, shown => ⟨0, c, .refl _, rfl, shown⟩
  | _, _, _, @Program.Executes.cons first rest _ after _ head tail,
      c, covered, at_, inside, room, shown => by
    rw [Program.temporaries] at room
    rw [statements] at at_ inside ⊢
    rw [List.length_append] at inside ⊢
    obtain ⟨n, c₁, hGoes, hPc, shown₁⟩ :=
      results_statement head covered.1 at_.left (by omega) (by omega) shown
    have hRest := results_statements tail covered.2 (c := c₁) (hPc ▸ at_.right) (by omega)
      (by omega) shown₁
    rw [← Nat.add_assoc, ← hPc]
    exact hRest.after hGoes
  | _, _, _, @Program.Executes.stops first rest _ failure head,
      c, covered, at_, inside, room, shown => by
    rw [Program.temporaries] at room
    rw [statements] at at_ inside
    rw [List.length_append] at inside
    exact results_statement head covered.1 at_.left (by omega) (by omega) shown

end

/-! ### Programs that go on for ever -/

theorem exists_evaluates {e : Expression} (covered : e.Covered symbols) (store : Store) :
    ∃ outcome, e.Evaluates store outcome := by
  induction e with
  | binary op lhs rhs line type ihl ihr =>
    obtain ⟨left, hLeft⟩ := ihl covered.1
    cases left with
    | error failure => exact ⟨_, .leftFails hLeft⟩
    | ok a =>
      obtain ⟨right, hRight⟩ := ihr covered.2
      cases right with
      | error failure => exact ⟨_, .rightFails hLeft hRight⟩
      | ok b => exact ⟨_, .binary hLeft hRight⟩
  | constant value line type => exact ⟨_, .constant⟩
  | reference name line type => exact ⟨_, .reference⟩
  | malformed line => exact absurd covered id

/-- The machine goes on for at least `n` steps. -/
def Lasts (code : Vector Instruction 1024) (c : Config) (n : Nat) : Prop :=
  ∃ (m : Nat) (after : Run), n ≤ m ∧ Goes m (c.run code) after

theorem Lasts.after {k m : Nat} (h : Goes k (c.run code) (c'.run code)) (h' : Lasts code c' m)
    (hn : n ≤ k + m) : Lasts code c n := by
  obtain ⟨l, after, hl, hGoes⟩ := h'
  exact ⟨k + l, after, by omega, h.trans hGoes⟩

/-- The statement has an outcome, or its code makes at least `n` steps. -/
def EndsOrLasts (code : Vector Instruction 1024) (symbols : Symbols) (n : Nat) (s : Statement) :
    Prop :=
  ∀ (state : State) (c : Config), s.Covered symbols → CodeAt code c.pc (statement symbols s) →
    c.pc + (statement symbols s).length < 1024 → symbols.size + s.temporaries ≤ 1024 →
    Matches symbols state c → (∃ outcome, s.Executes state outcome) ∨ Lasts code c n

/-- The sequence of statements has an outcome, or its code makes at least `n` steps. -/
def AllEndOrLast (code : Vector Instruction 1024) (symbols : Symbols) (n : Nat)
    (ss : List Statement) : Prop :=
  ∀ (state : State) (c : Config), Program.Covered symbols ss →
    CodeAt code c.pc (statements symbols ss) → c.pc + (statements symbols ss).length < 1024 →
    symbols.size + Program.temporaries ss ≤ 1024 → Matches symbols state c →
    (∃ outcome, Program.Executes ss state outcome) ∨ Lasts code c n

theorem endsOrLasts_ifThen {test : Expression} {yes : List Statement} (line : Nat)
    (ihYes : AllEndOrLast code symbols n yes) :
    EndsOrLasts code symbols n (.ifThen test yes line) := by
  intro state c covered at_ inside room shown
  rw [Statement.temporaries] at room
  rw [statement] at at_ inside
  rw [List.length_append, List.length_cons] at inside
  obtain ⟨outcome, hTest⟩ := exists_evaluates covered.1 state.store
  cases outcome with
  | error failure => exact .inl ⟨_, .ifThenStops hTest⟩
  | ok value =>
    by_cases hValue : value = 0
    · exact .inl ⟨_, .ifThenFalse (hValue ▸ hTest)⟩
    · obtain ⟨m, c', hGoes, hPc, shown'⟩ := goes_test hTest covered.1 at_ (by omega) shown
        (show _ = ((c.pc + (expression symbols 0 test).length + 1 +
          (statements symbols yes).length : Nat) : Int) by omega) (by omega) (by omega)
      rw [if_neg hValue] at hPc
      rcases ihYes state c' covered.2 (hPc ▸ at_.right.tail) (by omega) (by omega) shown' with
        ⟨outcome, hYes⟩ | hLasts
      · exact .inl ⟨outcome, .ifThenTrue hTest hValue hYes⟩
      · exact .inr (hLasts.after hGoes (by omega))

theorem endsOrLasts_ifElse {test : Expression} {yes no : List Statement} (line : Nat)
    (ihYes : AllEndOrLast code symbols n yes) (ihNo : AllEndOrLast code symbols n no) :
    EndsOrLasts code symbols n (.ifElse test yes no line) := by
  intro state c covered at_ inside room shown
  rw [Statement.temporaries] at room
  rw [statement] at at_ inside
  rw [List.length_append, List.length_cons, List.length_append, List.length_cons] at inside
  obtain ⟨outcome, hTest⟩ := exists_evaluates covered.1 state.store
  cases outcome with
  | error failure => exact .inl ⟨_, .ifElseStops hTest⟩
  | ok value =>
    obtain ⟨m, c', hGoes, hPc, shown'⟩ := goes_test hTest covered.1 at_ (by omega) shown
      (show _ = ((c.pc + (expression symbols 0 test).length + 1 +
        (statements symbols yes).length + 1 : Nat) : Int) by omega) (by omega) (by omega)
    by_cases hValue : value = 0
    · rw [if_pos hValue] at hPc
      rcases ihNo state c' covered.2.2 (hPc ▸ at_.right.tail.right.tail) (by omega) (by omega)
        shown' with ⟨outcome, hNo⟩ | hLasts
      · exact .inl ⟨outcome, .ifElseFalse (hValue ▸ hTest) hNo⟩
      · exact .inr (hLasts.after hGoes (by omega))
    · rw [if_neg hValue] at hPc
      have at' : CodeAt code c'.pc _ := hPc ▸ at_.right.tail
      rcases ihYes state c' covered.2.1 at'.left (by omega) (by omega) shown' with
        ⟨outcome, hYes⟩ | hLasts
      · exact .inl ⟨outcome, .ifElseTrue hTest hValue hYes⟩
      · exact .inr (hLasts.after hGoes (by omega))

/-- A loop that does not end makes a step in every round, so fewer are left to show behind it. -/
theorem endsOrLasts_loop {body : List Statement} {test : Expression} {line : Nat}
    (ihBody : AllEndOrLast code symbols (n + 1) body)
    (again : EndsOrLasts code symbols n (.loop body test line)) :
    EndsOrLasts code symbols (n + 1) (.loop body test line) := by
  intro state c covered at_ inside room shown
  have hTemps := room
  have at' := at_
  have inside' := inside
  rw [Statement.temporaries] at hTemps
  rw [statement] at at' inside'
  rw [List.length_append, List.length_append, List.length_singleton] at inside'
  rcases ihBody state c covered.1 at'.left (by omega) (by omega) shown with
    ⟨outcome, hBody⟩ | hLasts
  · cases outcome with
    | error failure => exact .inl ⟨_, .bodyStops hBody⟩
    | ok after =>
      obtain ⟨m, c₁, hGoes, hPc, shown₁⟩ :=
        results_statements hBody covered.1 at'.left (by omega) (by omega) shown
      obtain ⟨outcome, hTest⟩ := exists_evaluates covered.2 after.store
      cases outcome with
      | error failure => exact .inl ⟨_, .loopStops hBody hTest⟩
      | ok value =>
        by_cases hValue : value = 0
        · obtain ⟨k, c₂, hGoes₂, hPc₂, shown₂⟩ := goes_test hTest covered.2 (c := c₁)
            (hPc ▸ at'.right) (by omega) shown₁
            (show _ = ((c.pc : Nat) : Int) by omega) (by omega) (by omega)
          rw [if_pos hValue] at hPc₂
          subst hValue
          rcases again after c₂ covered (hPc₂ ▸ at_) (hPc₂ ▸ inside) room shown₂ with
            ⟨outcome, hAgain⟩ | hLasts
          · exact .inl ⟨outcome, .loopAgain hBody hTest hAgain⟩
          · exact .inr (hLasts.after (hGoes.trans hGoes₂) (by omega))
        · exact .inl ⟨_, .loopDone hBody hTest hValue⟩
  · exact .inr hLasts

theorem allEndOrLast_cons {first : Statement} {rest : List Statement}
    (ihFirst : EndsOrLasts code symbols n first) (ihRest : AllEndOrLast code symbols n rest) :
    AllEndOrLast code symbols n (first :: rest) := by
  intro state c covered at_ inside room shown
  rw [Program.temporaries] at room
  rw [statements] at at_ inside
  rw [List.length_append] at inside
  rcases ihFirst state c covered.1 at_.left (by omega) (by omega) shown with
    ⟨outcome, hFirst⟩ | hLasts
  · cases outcome with
    | error failure => exact .inl ⟨_, .stops hFirst⟩
    | ok after =>
      obtain ⟨m, c₁, hGoes, hPc, shown₁⟩ :=
        results_statement hFirst covered.1 at_.left (by omega) (by omega) shown
      rcases ihRest after c₁ covered.2 (hPc ▸ at_.right) (by omega) (by omega) shown₁ with
        ⟨outcome, hRest⟩ | hLasts
      · exact .inl ⟨outcome, .cons hFirst hRest⟩
      · exact .inr (hLasts.after hGoes (by omega))
  · exact .inr hLasts

/-- **Code without an outcome goes on for ever**: whatever number of steps is asked for, either the
statements have an outcome or the machine makes so many steps. -/
theorem outcome_or_lasts (n : Nat) :
    (∀ s : Statement, EndsOrLasts code symbols n s) ∧
      ∀ ss : List Statement, AllEndOrLast code symbols n ss := by
  induction n with
  | zero =>
    have hNone : ∀ c : Config, Lasts code c 0 := fun c => ⟨0, _, Nat.le_refl 0, .refl _⟩
    exact ⟨fun _ _ c _ _ _ _ _ => .inr (hNone c), fun _ _ c _ _ _ _ _ => .inr (hNone c)⟩
  | succ n ih =>
    refine Statement.ind ?_ ?_ ?_ ?_ ?_ ?_ ?_ ?_
    · exact fun test yes line ihYes => endsOrLasts_ifThen line ihYes
    · exact fun test yes no line ihYes ihNo => endsOrLasts_ifElse line ihYes ihNo
    · exact fun body test line ihBody => endsOrLasts_loop ihBody (ih.1 _)
    · intro name value line state c covered at_ _ room shown
      obtain ⟨outcome, hValue⟩ := exists_evaluates covered.1 state.store
      cases outcome with
      | error failure => exact .inl ⟨_, .assignStops hValue⟩
      | ok word => exact .inl ⟨_, .assign hValue⟩
    · intro name line state c covered at_ _ room shown
      cases hInput : state.input with
      | nil => exact .inl ⟨_, .readStops hInput⟩
      | cons word input => exact .inl ⟨_, .read hInput⟩
    · intro value line state c covered at_ _ room shown
      obtain ⟨outcome, hValue⟩ := exists_evaluates covered state.store
      cases outcome with
      | error failure => exact .inl ⟨_, .writeStops hValue⟩
      | ok word => exact .inl ⟨_, .write hValue⟩
    · intro state c _ _ _ _ _
      exact .inl ⟨_, .nil⟩
    · exact fun first rest ihFirst ihRest => allEndOrLast_cons ihFirst ihRest

end Tick

end Tiny
