import Tiny.Proofs.Erasure

/-!
# What checking reports

Whether a node of a tree violates the rules of types can be said without looking at the types that
the tree carries, for the form of an expression decides its type.  Checking a program reports the
violations of its nodes, those of the parts before those of the whole, and leaves every expression
with the type of its form.

* `Expression.formType`: the type of an expression by its form.
* `Program.postorder`: the nodes of a program, every one behind its parts.
* `TreeNode.violation?`: what is wrong with a node.
* `Expression.HasType`, `Statement.WellTyped`: the rules of types.
* `Program.check_violations`: what checking does to any tree, whatever types it carries.
-/

namespace Tiny

/-! ### The type of a form -/

/-- The type of an expression by its form: comparisons are Boolean, all else that was read is an
integer. -/
def Expression.formType : Expression → ValueType
  | .binary .less _ _ _ _ => .boolean
  | .binary .equal _ _ _ _ => .boolean
  | .binary _ _ _ _ _ => .integer
  | .constant _ _ _ => .integer
  | .reference _ _ _ => .integer
  | .malformed _ => .unresolved

/-- Every expression in an expression carries the type of its form. -/
def Expression.Settled : Expression → Prop
  | .binary op lhs rhs line type =>
    lhs.Settled ∧ rhs.Settled ∧ type = (Expression.binary op lhs rhs line type).formType
  | .constant _ _ type => type = .integer
  | .reference _ _ type => type = .integer
  | .malformed _ => True

mutual

/-- Every expression in a statement carries the type of its form. -/
def Statement.Settled : Statement → Prop
  | .ifThen test yes _ => test.Settled ∧ Program.Settled yes
  | .ifElse test yes no _ => test.Settled ∧ Program.Settled yes ∧ Program.Settled no
  | .loop body test _ => Program.Settled body ∧ test.Settled
  | .assign _ value _ => value.Settled
  | .read _ _ => True
  | .write value _ => value.Settled

/-- Every expression in a program carries the type of its form. -/
def Program.Settled : List Statement → Prop
  | [] => True
  | first :: rest => first.Settled ∧ Program.Settled rest

end

/-! ### Violations -/

/-- A node of a tree. -/
inductive TreeNode where
  | expression (e : Expression)
  | statement (s : Statement)

/-- The nodes of an expression, every one behind its parts. -/
def Expression.postorder : Expression → List TreeNode
  | .binary op lhs rhs line type =>
    lhs.postorder ++ rhs.postorder ++ [.expression (.binary op lhs rhs line type)]
  | leaf => [.expression leaf]

mutual

/-- The nodes of a statement, every one behind its parts. -/
def Statement.postorder : Statement → List TreeNode
  | .ifThen test yes line =>
    test.postorder ++ Program.postorder yes ++ [.statement (.ifThen test yes line)]
  | .ifElse test yes no line =>
    test.postorder ++ Program.postorder yes ++ Program.postorder no ++
      [.statement (.ifElse test yes no line)]
  | .loop body test line =>
    Program.postorder body ++ test.postorder ++ [.statement (.loop body test line)]
  | .assign name value line => value.postorder ++ [.statement (.assign name value line)]
  | .read name line => [.statement (.read name line)]
  | .write value line => value.postorder ++ [.statement (.write value line)]

/-- The nodes of a program, every one behind its parts. -/
def Program.postorder : List Statement → List TreeNode
  | [] => []
  | first :: rest => first.postorder ++ Program.postorder rest

end

/-- The violation of an expression that is not of the type asked for. -/
def Expression.mismatch? (e : Expression) (type : ValueType) (message : String) :
    Option Diagnostic :=
  if e.formType = type then none else some ⟨.typing, e.line, message⟩

theorem Expression.mismatch?_eq_none {e : Expression} {type : ValueType} {message : String} :
    e.mismatch? type message = none ↔ e.formType = type := by
  rw [mismatch?]
  by_cases h : e.formType = type <;> simp [h]

namespace TreeNode

/-- What is wrong with a node, if something is. -/
def violation? : TreeNode → Option Diagnostic
  | .expression (.binary _ lhs rhs line _) =>
    if lhs.formType = .integer ∧ rhs.formType = .integer then none
    else some ⟨.typing, line, "Op applied to non-integer"⟩
  | .expression _ => none
  | .statement (.ifThen test _ _) => test.mismatch? .boolean "if test is not Boolean"
  | .statement (.ifElse test _ _ _) => test.mismatch? .boolean "if test is not Boolean"
  | .statement (.loop _ test _) => test.mismatch? .boolean "repeat test is not Boolean"
  | .statement (.assign _ value _) => value.mismatch? .integer "assignment of non-integer value"
  | .statement (.read _ _) => none
  | .statement (.write value _) => value.mismatch? .integer "write of non-integer value"

/-- What is wrong with some nodes, in their order. -/
def violations (nodes : List TreeNode) : List Diagnostic :=
  nodes.filterMap violation?

theorem violations_append (a b : List TreeNode) :
    violations (a ++ b) = violations a ++ violations b :=
  List.filterMap_append

theorem violations_singleton (node : TreeNode) : violations [node] = node.violation?.toList := by
  cases h : node.violation? <;> simp [violations, h]

theorem violations_append_eq_nil {a b : List TreeNode} :
    violations (a ++ b) = [] ↔ violations a = [] ∧ violations b = [] := by
  rw [violations_append, List.append_eq_nil_iff]

theorem violations_concat_eq_nil {nodes : List TreeNode} {node : TreeNode} :
    violations (nodes ++ [node]) = [] ↔ violations nodes = [] ∧ node.violation? = none := by
  rw [violations_append_eq_nil, violations_singleton, Option.toList_eq_nil_iff]

theorem violation?_binary {op : Operator} {lhs rhs : Expression} {line : Nat} {type : ValueType} :
    (expression (.binary op lhs rhs line type)).violation? = none ↔
      lhs.formType = .integer ∧ rhs.formType = .integer := by
  rw [violation?]
  by_cases operands : lhs.formType = .integer ∧ rhs.formType = .integer
  · rw [if_pos operands]
    exact iff_of_true rfl operands
  · rw [if_neg operands]
    exact iff_of_false nofun operands

end TreeNode

/-! ### The rules of types -/

/-- The rules for expressions. -/
inductive Expression.HasType : Expression → ValueType → Prop
  | constant {value line type} : HasType (.constant value line type) .integer
  | reference {name line type} : HasType (.reference name line type) .integer
  | arithmetic {op lhs rhs line type} (arithmetic : op = .add ∨ op = .sub ∨ op = .mul ∨ op = .div)
      (left : HasType lhs .integer) (right : HasType rhs .integer) :
      HasType (.binary op lhs rhs line type) .integer
  | comparison {op lhs rhs line type} (comparison : op = .less ∨ op = .equal)
      (left : HasType lhs .integer) (right : HasType rhs .integer) :
      HasType (.binary op lhs rhs line type) .boolean

/-- The rules for statements. -/
inductive Statement.WellTyped : Statement → Prop
  | ifThen {test yes line} (hTest : test.HasType .boolean) (hYes : ∀ s ∈ yes, WellTyped s) :
      WellTyped (.ifThen test yes line)
  | ifElse {test yes no line} (hTest : test.HasType .boolean) (hYes : ∀ s ∈ yes, WellTyped s)
      (hNo : ∀ s ∈ no, WellTyped s) : WellTyped (.ifElse test yes no line)
  | loop {body test line} (hBody : ∀ s ∈ body, WellTyped s) (hTest : test.HasType .boolean) :
      WellTyped (.loop body test line)
  | assign {name value line} (hValue : value.HasType .integer) : WellTyped (.assign name value line)
  | read {name line} : WellTyped (.read name line)
  | write {value line} (hValue : value.HasType .integer) : WellTyped (.write value line)

/-- The rules for programs. -/
def Program.WellTyped (p : Program) : Prop :=
  ∀ s ∈ p, s.WellTyped

theorem Expression.hasType_binary {op : Operator} {lhs rhs : Expression} {line : Nat}
    {type t : ValueType} :
    (Expression.binary op lhs rhs line type).HasType t ↔
      (Expression.binary op lhs rhs line type).formType = t ∧
        lhs.HasType .integer ∧ rhs.HasType .integer := by
  constructor
  · intro h
    cases h with
    | arithmetic arithmetic left right =>
      rcases arithmetic with rfl | rfl | rfl | rfl <;> exact ⟨rfl, left, right⟩
    | comparison comparison left right =>
      rcases comparison with rfl | rfl <;> exact ⟨rfl, left, right⟩
  · rintro ⟨rfl, left, right⟩
    cases op with
    | add => exact .arithmetic (by simp) left right
    | sub => exact .arithmetic (by simp) left right
    | mul => exact .arithmetic (by simp) left right
    | div => exact .arithmetic (by simp) left right
    | less => exact .comparison (by simp) left right
    | equal => exact .comparison (by simp) left right

/-- An expression has a type if nothing is wrong with its nodes and its form has that type. -/
theorem Expression.hasType_iff {e : Expression} {t : ValueType} (found : t ≠ .unresolved) :
    e.HasType t ↔ e.formType = t ∧ TreeNode.violations e.postorder = [] := by
  induction e generalizing t with
  | binary op lhs rhs line type ihl ihr =>
    rw [hasType_binary, ihl (by simp), ihr (by simp), postorder,
      TreeNode.violations_concat_eq_nil, TreeNode.violations_append_eq_nil,
      TreeNode.violation?_binary]
    constructor
    · rintro ⟨hForm, ⟨hLeft, noLeft⟩, hRight, noRight⟩
      exact ⟨hForm, ⟨noLeft, noRight⟩, hLeft, hRight⟩
    · rintro ⟨hForm, ⟨noLeft, noRight⟩, hLeft, hRight⟩
      exact ⟨hForm, ⟨hLeft, noLeft⟩, hRight, noRight⟩
  | constant value line type =>
    constructor
    · intro h
      cases h
      exact ⟨rfl, rfl⟩
    · rintro ⟨rfl, -⟩
      exact .constant
  | reference name line type =>
    constructor
    · intro h
      cases h
      exact ⟨rfl, rfl⟩
    · rintro ⟨rfl, -⟩
      exact .reference
  | malformed line =>
    constructor
    · intro h
      cases h
    · rintro ⟨rfl, -⟩
      exact absurd rfl found

/-- The same for an expression that is asked for by a statement. -/
theorem Expression.hasType_iff_mismatch? {e : Expression} {t : ValueType} {message : String}
    (found : t ≠ .unresolved) :
    e.HasType t ↔ e.mismatch? t message = none ∧ TreeNode.violations e.postorder = [] := by
  rw [hasType_iff found, mismatch?_eq_none]

/-- **The rules hold exactly if nothing is wrong with a node.** -/
theorem wellTyped_iff :
    (∀ s : Statement, s.WellTyped ↔ TreeNode.violations s.postorder = []) ∧
    ∀ p : List Statement, Program.WellTyped p ↔ TreeNode.violations (Program.postorder p) = [] := by
  refine Statement.ind ?_ ?_ ?_ ?_ ?_ ?_ ?_ ?_
  · intro test yes line ih
    rw [Statement.postorder, TreeNode.violations_concat_eq_nil, TreeNode.violations_append_eq_nil,
      ← ih]
    constructor
    · intro h
      cases h with
      | ifThen hTest hYes =>
        obtain ⟨fits, noTest⟩ := (Expression.hasType_iff_mismatch? (by decide)).mp hTest
        exact ⟨⟨noTest, hYes⟩, fits⟩
    · rintro ⟨⟨noTest, hYes⟩, fits⟩
      exact .ifThen ((Expression.hasType_iff_mismatch? (by decide)).mpr ⟨fits, noTest⟩) hYes
  · intro test yes no line ihYes ihNo
    rw [Statement.postorder, TreeNode.violations_concat_eq_nil, TreeNode.violations_append_eq_nil,
      TreeNode.violations_append_eq_nil, ← ihYes, ← ihNo]
    constructor
    · intro h
      cases h with
      | ifElse hTest hYes hNo =>
        obtain ⟨fits, noTest⟩ := (Expression.hasType_iff_mismatch? (by decide)).mp hTest
        exact ⟨⟨⟨noTest, hYes⟩, hNo⟩, fits⟩
    · rintro ⟨⟨⟨noTest, hYes⟩, hNo⟩, fits⟩
      exact .ifElse ((Expression.hasType_iff_mismatch? (by decide)).mpr ⟨fits, noTest⟩) hYes hNo
  · intro body test line ih
    rw [Statement.postorder, TreeNode.violations_concat_eq_nil, TreeNode.violations_append_eq_nil,
      ← ih]
    constructor
    · intro h
      cases h with
      | loop hBody hTest =>
        obtain ⟨fits, noTest⟩ := (Expression.hasType_iff_mismatch? (by decide)).mp hTest
        exact ⟨⟨hBody, noTest⟩, fits⟩
    · rintro ⟨⟨hBody, noTest⟩, fits⟩
      exact .loop hBody ((Expression.hasType_iff_mismatch? (by decide)).mpr ⟨fits, noTest⟩)
  · intro name value line
    rw [Statement.postorder, TreeNode.violations_concat_eq_nil]
    constructor
    · intro h
      cases h with
      | assign hValue =>
        obtain ⟨fits, none⟩ := (Expression.hasType_iff_mismatch? (by decide)).mp hValue
        exact ⟨none, fits⟩
    · rintro ⟨none, fits⟩
      exact .assign ((Expression.hasType_iff_mismatch? (by decide)).mpr ⟨fits, none⟩)
  · intro name line
    exact iff_of_true .read rfl
  · intro value line
    rw [Statement.postorder, TreeNode.violations_concat_eq_nil]
    constructor
    · intro h
      cases h with
      | write hValue =>
        obtain ⟨fits, none⟩ := (Expression.hasType_iff_mismatch? (by decide)).mp hValue
        exact ⟨none, fits⟩
    · rintro ⟨none, fits⟩
      exact .write ((Expression.hasType_iff_mismatch? (by decide)).mpr ⟨fits, none⟩)
  · exact iff_of_true (fun s member => nomatch member) rfl
  · intro first rest ihFirst ihRest
    rw [Program.postorder, TreeNode.violations_append_eq_nil, ← ihFirst, ← ihRest]
    exact List.forall_mem_cons

/-! ### Checking -/

/-- The expression with the types of its forms. -/
def Expression.typed : Expression → Expression
  | .binary op lhs rhs line type =>
    .binary op lhs.typed rhs.typed line (Expression.binary op lhs rhs line type).formType
  | .constant value line _ => .constant value line .integer
  | .reference name line _ => .reference name line .integer
  | .malformed line => .malformed line

mutual

/-- The statement with the types of its forms. -/
def Statement.typed : Statement → Statement
  | .ifThen test yes line => .ifThen test.typed (Program.typed yes) line
  | .ifElse test yes no line => .ifElse test.typed (Program.typed yes) (Program.typed no) line
  | .loop body test line => .loop (Program.typed body) test.typed line
  | .assign name value line => .assign name value.typed line
  | .read name line => .read name line
  | .write value line => .write value.typed line

/-- The statements with the types of their forms. -/
def Program.typed : List Statement → List Statement
  | [] => []
  | first :: rest => first.typed :: Program.typed rest

end

theorem Expression.type_typed (e : Expression) : e.typed.type = e.formType := by
  cases e <;> rfl

theorem Expression.line_typed (e : Expression) : e.typed.line = e.line := by
  cases e <;> rfl

theorem Operator.resultType_eq (op : Operator) (lhs rhs : Expression) (line : Nat)
    (type : ValueType) :
    op.resultType = (Expression.binary op lhs rhs line type).formType := by
  cases op <;> rfl

namespace Typing

variable {α β : Type} {work : Check α} {f : α → Check β} {x : α} {y : β}
  {new more : List Diagnostic}

/-- The work gives `x` and adds diagnostics to those before. -/
def Adds (work : Check α) (x : α) (new : List Diagnostic) : Prop :=
  ∀ found, work.run found = (x, found ++ new.toArray)

theorem adds_pure (x : α) : Adds (pure x) x [] := by
  intro found
  exact congrArg (Prod.mk x) (Array.append_empty).symm

theorem Adds.bind (h : Adds work x new) (hf : Adds (f x) y more) :
    Adds (work >>= f) y (new ++ more) := by
  intro found
  rw [run_bind_eq, h found, hf, Array.append_assoc, List.append_toArray new more]

theorem Adds.of_eq (h : Adds work x new) (hNew : more = new) : Adds work x more := by
  rw [hNew]
  exact h

theorem adds_report (line : Nat) (message : String) :
    Adds (report line message) () [⟨.typing, line, message⟩] := by
  intro found
  exact congrArg (Prod.mk ()) Array.push_eq_append

/-- An operation whose operands are settled. -/
theorem adds_settle (op : Operator) (lhs rhs : Expression) (line : Nat) (type : ValueType) :
    Adds (settle (.binary op lhs.typed rhs.typed line type))
      (Expression.binary op lhs rhs line type).typed
      (TreeNode.expression (.binary op lhs rhs line type)).violation?.toList := by
  rw [settle, Expression.type_typed, Expression.type_typed, Expression.typed,
    op.resultType_eq lhs rhs line type, TreeNode.violation?]
  by_cases operands : lhs.formType = .integer ∧ rhs.formType = .integer
  · rw [if_pos operands, if_neg (by simp [operands])]
    exact adds_pure _
  · rw [if_neg operands, if_pos (Decidable.not_and_iff_or_not.mp operands)]
    exact (adds_report line _).bind (adds_pure _)

theorem adds_walk_expression (e : Expression) :
    Adds (e.walk checker) e.typed (TreeNode.violations e.postorder) := by
  have hEnter : Adds (pure () : Check Unit) () [] := adds_pure ()
  induction e with
  | binary op lhs rhs line type ihl ihr =>
    refine (hEnter.bind (ihl.bind (ihr.bind (adds_settle op lhs rhs line type)))).of_eq ?_
    simp only [Expression.postorder, TreeNode.violations_append, TreeNode.violations_singleton,
      List.append_assoc, List.nil_append]
  | constant value line type => exact hEnter.bind (adds_pure _)
  | reference name line type => exact hEnter.bind (adds_pure _)
  | malformed line => exact hEnter.bind (adds_pure _)

theorem adds_require (e : Expression) (type : ValueType) (message : String) :
    Adds (require e.typed type message) () (e.mismatch? type message).toList := by
  rw [require, Expression.type_typed, Expression.line_typed, Expression.mismatch?]
  by_cases h : e.formType = type
  · rw [if_pos h, if_pos h]
    exact adds_pure ()
  · rw [if_neg h, if_neg h]
    exact adds_report e.line message

/-- A statement is left when its parts are settled. -/
theorem adds_leave (s : Statement) :
    Adds (checker.leaveStatement s.typed) s.typed
      (TreeNode.statement s).violation?.toList := by
  have hDemand : Adds (demand s.typed) () (TreeNode.statement s).violation?.toList := by
    cases s with
    | ifThen test yes line => exact adds_require test _ _
    | ifElse test yes no line => exact adds_require test _ _
    | loop body test line => exact adds_require test _ _
    | assign name value line => exact adds_require value _ _
    | read name line => exact adds_pure ()
    | write value line => exact adds_require value _ _
  exact (hDemand.bind (adds_pure s.typed)).of_eq (List.append_nil _).symm

theorem adds_walk :
    (∀ s : Statement, Adds (s.walk checker) s.typed (TreeNode.violations s.postorder)) ∧
    ∀ p : List Statement, Adds (Program.walk checker p) (Program.typed p)
      (TreeNode.violations (Program.postorder p)) := by
  have hEnter : Adds (pure () : Check Unit) () [] := adds_pure ()
  have hTest := adds_walk_expression
  refine Statement.ind ?_ ?_ ?_ ?_ ?_ ?_ ?_ ?_
  · intro test yes line ih
    refine (hEnter.bind ((hTest test).bind (ih.bind
      (adds_leave (.ifThen test yes line))))).of_eq ?_
    simp only [Statement.postorder, TreeNode.violations_append, TreeNode.violations_singleton,
      List.append_assoc, List.nil_append]
  · intro test yes no line ihYes ihNo
    refine (hEnter.bind ((hTest test).bind (ihYes.bind (ihNo.bind
      (adds_leave (.ifElse test yes no line)))))).of_eq ?_
    simp only [Statement.postorder, TreeNode.violations_append, TreeNode.violations_singleton,
      List.append_assoc, List.nil_append]
  · intro body test line ih
    refine (hEnter.bind (ih.bind ((hTest test).bind
      (adds_leave (.loop body test line))))).of_eq ?_
    simp only [Statement.postorder, TreeNode.violations_append, TreeNode.violations_singleton,
      List.append_assoc, List.nil_append]
  · intro name value line
    refine (hEnter.bind ((hTest value).bind (adds_leave (.assign name value line)))).of_eq ?_
    simp only [Statement.postorder, TreeNode.violations_append, TreeNode.violations_singleton,
      List.nil_append]
  · intro name line
    exact hEnter.bind (adds_leave (.read name line))
  · intro value line
    refine (hEnter.bind ((hTest value).bind (adds_leave (.write value line)))).of_eq ?_
    simp only [Statement.postorder, TreeNode.violations_append, TreeNode.violations_singleton,
      List.nil_append]
  · exact adds_pure []
  · intro first rest ihFirst ihRest
    have hDone : Adds (pure (first.typed :: Program.typed rest) : Check Program) _ [] :=
      adds_pure _
    refine (ihFirst.bind (ihRest.bind hDone)).of_eq ?_
    rw [Program.postorder, TreeNode.violations_append, List.append_nil]

end Typing

/-! ### Trees that differ in their types only -/

namespace Expression

theorem formType_erase (e : Expression) : e.erase.formType = e.formType := by
  cases e with
  | binary op lhs rhs line type => cases op <;> rfl
  | constant value line type => rfl
  | reference name line type => rfl
  | malformed line => rfl

theorem line_erase (e : Expression) : e.erase.line = e.line := by
  cases e <;> rfl

theorem mismatch?_erase (e : Expression) (type : ValueType) (message : String) :
    e.erase.mismatch? type message = e.mismatch? type message := by
  rw [mismatch?, mismatch?, formType_erase, line_erase]

theorem typed_erase (e : Expression) : e.erase.typed = e.typed := by
  induction e with
  | binary op lhs rhs line type ihl ihr =>
    rw [erase, typed, typed, ihl, ihr]
    cases op <;> rfl
  | constant value line type => rfl
  | reference name line type => rfl
  | malformed line => rfl

theorem violations_erase (e : Expression) :
    TreeNode.violations e.erase.postorder = TreeNode.violations e.postorder := by
  induction e with
  | binary op lhs rhs line type ihl ihr =>
    simp only [erase, postorder, TreeNode.violations_append, TreeNode.violations_singleton,
      TreeNode.violation?, formType_erase, ihl, ihr]
  | constant value line type => rfl
  | reference name line type => rfl
  | malformed line => rfl

theorem settled_typed (e : Expression) : e.typed.Settled := by
  induction e with
  | binary op lhs rhs line type ihl ihr =>
    refine ⟨ihl, ihr, ?_⟩
    cases op <;> rfl
  | constant value line type => rfl
  | reference name line type => rfl
  | malformed line => trivial

end Expression

theorem typed_erase_all :
    (∀ s : Statement, s.erase.typed = s.typed) ∧
    ∀ p : List Statement, Program.typed (Program.erase p) = Program.typed p := by
  refine Statement.ind ?_ ?_ ?_ ?_ ?_ ?_ ?_ ?_
  · intro test yes line ih
    rw [Statement.erase, Statement.typed, Statement.typed, test.typed_erase, ih]
  · intro test yes no line ihYes ihNo
    rw [Statement.erase, Statement.typed, Statement.typed, test.typed_erase, ihYes, ihNo]
  · intro body test line ih
    rw [Statement.erase, Statement.typed, Statement.typed, test.typed_erase, ih]
  · intro name value line
    rw [Statement.erase, Statement.typed, Statement.typed, value.typed_erase]
  · intro name line
    rfl
  · intro value line
    rw [Statement.erase, Statement.typed, Statement.typed, value.typed_erase]
  · rfl
  · intro first rest ihFirst ihRest
    rw [Program.erase, Program.typed, Program.typed, ihFirst, ihRest]

theorem violations_erase_all :
    (∀ s : Statement,
      TreeNode.violations s.erase.postorder = TreeNode.violations s.postorder) ∧
    ∀ p : List Statement, TreeNode.violations (Program.postorder (Program.erase p)) =
      TreeNode.violations (Program.postorder p) := by
  refine Statement.ind ?_ ?_ ?_ ?_ ?_ ?_ ?_ ?_
  · intro test yes line ih
    simp only [Statement.erase, Statement.postorder, TreeNode.violations_append,
      TreeNode.violations_singleton, TreeNode.violation?, test.violations_erase,
      test.mismatch?_erase, ih]
  · intro test yes no line ihYes ihNo
    simp only [Statement.erase, Statement.postorder, TreeNode.violations_append,
      TreeNode.violations_singleton, TreeNode.violation?, test.violations_erase,
      test.mismatch?_erase, ihYes, ihNo]
  · intro body test line ih
    simp only [Statement.erase, Statement.postorder, TreeNode.violations_append,
      TreeNode.violations_singleton, TreeNode.violation?, test.violations_erase,
      test.mismatch?_erase, ih]
  · intro name value line
    simp only [Statement.erase, Statement.postorder, TreeNode.violations_append,
      TreeNode.violations_singleton, TreeNode.violation?, value.violations_erase,
      value.mismatch?_erase]
  · intro name line
    rfl
  · intro value line
    simp only [Statement.erase, Statement.postorder, TreeNode.violations_append,
      TreeNode.violations_singleton, TreeNode.violation?, value.violations_erase,
      value.mismatch?_erase]
  · rfl
  · intro first rest ihFirst ihRest
    rw [Program.erase, Program.postorder, Program.postorder, TreeNode.violations_append,
      TreeNode.violations_append, ihFirst, ihRest]

theorem settled_typed_all :
    (∀ s : Statement, s.typed.Settled) ∧ ∀ p : List Statement, Program.Settled (Program.typed p) :=
  Statement.ind
    (fun test _ _ ih => ⟨test.settled_typed, ih⟩)
    (fun test _ _ _ ihYes ihNo => ⟨test.settled_typed, ihYes, ihNo⟩)
    (fun _ test _ ih => ⟨ih, test.settled_typed⟩)
    (fun _ value _ => value.settled_typed) (fun _ _ => trivial)
    (fun value _ => value.settled_typed) trivial
    (fun _ _ ihFirst ihRest => ⟨ihFirst, ihRest⟩)

namespace Program

/-- What is wrong with a program: the violations of its nodes, those of the parts before those of
the whole. -/
def violations (p : Program) : List Diagnostic :=
  TreeNode.violations (postorder p)

theorem run_walk (p : Program) (found : Diagnostics) :
    (walk Typing.checker p).run found = (typed p, found ++ (violations p).toArray) :=
  Typing.adds_walk.2 p found

/-- Trees that differ in their types only are checked alike. -/
theorem run_walk_of_erase {p p' : Program} (same : erase p' = erase p) (found : Diagnostics) :
    (walk Typing.checker p').run found = (typed p, found ++ (violations p).toArray) := by
  have hTyped : typed p' = typed p := by
    rw [← typed_erase_all.2 p', same, typed_erase_all.2 p]
  have hViolations : violations p' = violations p := by
    rw [violations, ← violations_erase_all.2 p', same, violations_erase_all.2 p, violations]
  rw [run_walk, hTyped, hViolations]

theorem append_violations_eq_iff {p : Program} {found : Diagnostics} :
    found ++ (violations p).toArray = found ↔ WellTyped p := by
  rw [wellTyped_iff.2 p, ← violations]
  simp

/-- **Checking reports exactly what is wrong and settles every type.**  For any tree, whatever types
it carries and also with malformed parts, checking adds the violations of the tree to what was
reported before; so it adds nothing exactly if the rules of types hold.  Afterwards every expression
carries the type of its form, and nothing but types is changed.  The result depends on nothing but
the tree without its types, so checking once more reports the same and changes nothing. -/
theorem check_violations (p : Program) (found : Diagnostics) :
    ∃ checked,
      (walk Typing.checker p).run found = (checked, found ++ (violations p).toArray) ∧
      p.check = (checked, (violations p).toArray) ∧
      (found ++ (violations p).toArray = found ↔ WellTyped p) ∧
      Settled checked ∧ erase checked = erase p ∧
      (∀ p' found', erase p' = erase p →
        (walk Typing.checker p').run found' = (checked, found' ++ (violations p).toArray)) ∧
      ∀ found', (walk Typing.checker checked).run found' =
        (checked, found' ++ (violations p).toArray) := by
  have hCheck : p.check = (typed p, (violations p).toArray) := by
    rw [check, run_walk, Array.empty_append]
  have hErase : erase (typed p) = erase p := by
    have h := erase_check p
    rw [hCheck] at h
    exact h
  refine ⟨typed p, run_walk p found, hCheck, append_violations_eq_iff, settled_typed_all.2 p,
    hErase, ?_, ?_⟩
  · intro p' found' same
    exact run_walk_of_erase same found'
  · intro found'
    exact run_walk_of_erase hErase found'

end Program

end Tiny
