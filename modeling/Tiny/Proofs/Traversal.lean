import Mathlib.Algebra.BigOperators.Ring.List
import Mathlib.Algebra.Ring.Nat
import Tiny.Proofs.Peeling
import Tiny.Proofs.Violations

/-!
# Walks are nested

A walk treats statements and expressions of every shape in its own way, but it does one thing: it
calls the visitor for a node, then goes through the parts of the node in order, and then calls the
visitor again.  If a call fails, the walk stops there.

* `TreeNode.children`: the parts of a node.
* `TreeNode.fold`: what is computed from the parts up; `TreeNode.calls`: the calls of a walk.
* `walk_observing`: a visitor that leaves the tree alone is given these calls, in order.
* `forM_note`: a recorder that fails writes down the calls up to that one.
* `Program.visits_nested`: so a walk is nested, and stops at once.
-/

namespace Tiny

/-! ### Nodes -/

namespace TreeNode

/-- The parts of a node, in the order in which they are visited. -/
def children : TreeNode → List TreeNode
  | .statement (.ifThen test yes _) => .expression test :: yes.map .statement
  | .statement (.ifElse test yes no _) =>
    .expression test :: (yes.map .statement ++ no.map .statement)
  | .statement (.loop body test _) => body.map .statement ++ [.expression test]
  | .statement (.assign _ value _) => [.expression value]
  | .statement (.read _ _) => []
  | .statement (.write value _) => [.expression value]
  | .expression (.binary _ lhs rhs _ _) => [.expression lhs, .expression rhs]
  | .expression _ => []

theorem sizeOf_statement_lt {s : Statement} {ss : List Statement} (h : s ∈ ss) :
    sizeOf (statement s) < sizeOf ss + 1 := by
  have := List.sizeOf_lt_of_mem h
  rw [statement.sizeOf_spec]
  omega

/-- A part is smaller than the whole. -/
theorem sizeOf_lt_of_mem {node child : TreeNode} (h : child ∈ node.children) :
    sizeOf child < sizeOf node := by
  have hStatements : ∀ {ss : List Statement}, child ∈ ss.map statement →
      sizeOf child < sizeOf ss + 1 := by
    intro ss member
    obtain ⟨s, hs, rfl⟩ := List.mem_map.mp member
    exact sizeOf_statement_lt hs
  cases node with
  | statement s =>
    cases s with
    | ifThen test yes line =>
      rcases List.mem_cons.mp h with rfl | h
      · simp; omega
      · have := hStatements h
        simp; omega
    | ifElse test yes no line =>
      rcases List.mem_cons.mp h with rfl | h
      · simp; omega
      · rcases List.mem_append.mp h with h | h
        · have := hStatements h
          simp; omega
        · have := hStatements h
          simp; omega
    | loop body test line =>
      rcases List.mem_append.mp h with h | h
      · have := hStatements h
        simp; omega
      · obtain rfl := List.mem_singleton.mp h
        simp; omega
    | assign name value line =>
      obtain rfl := List.mem_singleton.mp h
      simp; omega
    | read name line => exact absurd h List.not_mem_nil
    | write value line =>
      obtain rfl := List.mem_singleton.mp h
      simp; omega
  | expression e =>
    cases e with
    | binary op lhs rhs line type =>
      rcases List.mem_cons.mp h with rfl | h
      · simp; omega
      · obtain rfl := List.mem_singleton.mp h
        simp; omega
    | constant value line type => exact absurd h List.not_mem_nil
    | reference name line type => exact absurd h List.not_mem_nil
    | malformed line => exact absurd h List.not_mem_nil

/-- Induction over the nodes of a tree. -/
theorem ind {P : TreeNode → Prop} (step : ∀ node, (∀ child ∈ node.children, P child) → P node)
    (node : TreeNode) : P node :=
  step node fun child _ => ind step child
termination_by node
decreasing_by exact sizeOf_lt_of_mem ‹_›

/-- What is computed for a node from what was computed for its parts. -/
def fold {α : Type} (f : TreeNode → List α → α) (node : TreeNode) : α :=
  f node (node.children.attach.map fun child => fold f child.1)
termination_by node
decreasing_by exact sizeOf_lt_of_mem child.2

theorem fold_eq {α : Type} (f : TreeNode → List α → α) (node : TreeNode) :
    node.fold f = f node (node.children.map (fold f)) := by
  rw [fold, List.attach_map_val]

/-- The number of nodes of a tree. -/
def size : TreeNode → Nat :=
  fold fun _ sizes => 1 + sizes.sum

/-- A node, then the nodes of its parts. -/
def preorder : TreeNode → List TreeNode :=
  fold fun node parts => node :: parts.flatten

/-- The nodes of the parts of a node, then the node. -/
def postorder : TreeNode → List TreeNode
  | .statement s => s.postorder
  | .expression e => e.postorder

end TreeNode

/-- A call of a visitor for a node. -/
inductive Call where
  | enter (node : TreeNode)
  | leave (node : TreeNode)

namespace Call

/-- The node that is entered by a call. -/
def entered? : Call → Option TreeNode
  | .enter node => some node
  | .leave _ => none

/-- The node that is left by a call. -/
def left? : Call → Option TreeNode
  | .enter _ => none
  | .leave node => some node

end Call

namespace TreeNode

/-- The calls of a walk over a tree: for each node, those for its parts are enclosed between the two
for the node itself. -/
def calls : TreeNode → List Call :=
  fold fun node parts => .enter node :: parts.flatten ++ [.leave node]

theorem size_eq (node : TreeNode) : node.size = 1 + (node.children.map size).sum := by
  rw [size, fold_eq]

theorem preorder_eq (node : TreeNode) : node.preorder = node :: node.children.flatMap preorder := by
  rw [preorder, fold_eq, List.flatMap_def]

theorem flatMap_postorder (p : List Statement) :
    (p.map statement).flatMap postorder = Program.postorder p := by
  induction p with
  | nil => rfl
  | cons s p ih => rw [List.map_cons, List.flatMap_cons, ih, Program.postorder, postorder]

theorem postorder_eq (node : TreeNode) :
    node.postorder = node.children.flatMap postorder ++ [node] := by
  cases node with
  | statement s =>
    cases s <;>
      simp [children, postorder, Statement.postorder, flatMap_postorder, List.flatMap_append]
  | expression e => cases e <;> simp [children, postorder, Expression.postorder]

theorem calls_eq (node : TreeNode) :
    node.calls = .enter node :: node.children.flatMap calls ++ [.leave node] := by
  rw [calls, fold_eq, List.flatMap_def]

/-! ### What the calls are -/

theorem length_calls (node : TreeNode) : node.calls.length = 2 * node.size := by
  induction node using ind with
  | step node ih =>
    have hParts : (node.children.map fun child => child.calls.length) =
        node.children.map fun child => 2 * child.size := List.map_congr_left ih
    rw [calls_eq, size_eq, List.length_append, List.length_cons, List.length_flatMap, hParts,
      List.sum_map_mul_left, List.length_singleton]
    omega

theorem filterMap_entered (node : TreeNode) :
    node.calls.filterMap Call.entered? = node.preorder := by
  induction node using ind with
  | step node ih =>
    have hParts : (node.children.flatMap calls).filterMap Call.entered? =
        node.children.flatMap preorder := by
      rw [List.filterMap_flatMap]
      exact List.flatMap_congr ih
    rw [calls_eq, preorder_eq, List.filterMap_append, List.filterMap_cons, hParts]
    exact List.append_nil _

theorem filterMap_left (node : TreeNode) : node.calls.filterMap Call.left? = node.postorder := by
  induction node using ind with
  | step node ih =>
    have hParts : (node.children.flatMap calls).filterMap Call.left? =
        node.children.flatMap postorder := by
      rw [List.filterMap_flatMap]
      exact List.flatMap_congr ih
    rw [calls_eq, postorder_eq, List.filterMap_append, List.filterMap_cons, hParts]
    rfl

end TreeNode

/-! ### Visitors that leave the tree alone -/

section Observing

variable {m : Type → Type} [Monad m]

/-- The visitor that acts on every call and leaves the tree alone. -/
def Visitor.observing (act : Call → m Unit) : Visitor m where
  enterStatement s := act (.enter (.statement s))
  leaveStatement s := do
    act (.leave (.statement s))
    return s
  enterExpression e := act (.enter (.expression e))
  leaveExpression e := do
    act (.leave (.expression e))
    return e

/-- The calls of a walk over a program. -/
def Program.calls (p : Program) : List Call :=
  (p.map TreeNode.statement).flatMap TreeNode.calls

/-- Acts on the calls for some trees, one after the other. -/
def actOn (act : Call → m Unit) (nodes : List TreeNode) : m Unit :=
  forM (nodes.flatMap TreeNode.calls) act

variable [LawfulMonad m] (act : Call → m Unit)

theorem actOn_append (nodes more : List TreeNode) :
    actOn act (nodes ++ more) = (do actOn act nodes; actOn act more) := by
  rw [actOn, List.flatMap_append]
  exact List.forM_append

theorem actOn_node (node : TreeNode) :
    actOn act [node] = (do act (.enter node); actOn act node.children; act (.leave node)) := by
  rw [actOn, List.flatMap_singleton, TreeNode.calls_eq]
  simp [actOn]

theorem walk_expression_observing (e : Expression) :
    e.walk (.observing act) = (do actOn act [.expression e]; return e) := by
  have hLeaf : ∀ e : Expression, (TreeNode.expression e).children = [] →
      (do act (.enter (.expression e)); Visitor.leaveExpression (.observing act) e) =
        (do actOn act [.expression e]; return e) := by
    intro e hNone
    rw [actOn_node, hNone]
    simp [actOn, Visitor.observing]
  induction e with
  | binary op lhs rhs line type ihl ihr =>
    have hParts : (TreeNode.expression (.binary op lhs rhs line type)).children =
      [.expression lhs] ++ [.expression rhs] := rfl
    rw [Expression.walk, ihl, ihr, actOn_node act (.expression (.binary op lhs rhs line type)),
      hParts, actOn_append]
    simp only [Visitor.observing, bind_assoc, pure_bind]
  | constant value line type => exact hLeaf _ rfl
  | reference name line type => exact hLeaf _ rfl
  | malformed line => exact hLeaf _ rfl

theorem walk_observing :
    (∀ s : Statement, s.walk (.observing act) = (do actOn act [.statement s]; return s)) ∧
    ∀ p : List Statement,
      Program.walk (.observing act) p = (do actOn act (p.map .statement); return p) := by
  have hExpression := walk_expression_observing act
  refine Statement.ind ?_ ?_ ?_ ?_ ?_ ?_ ?_ ?_
  · intro test yes line ih
    have hParts : (TreeNode.statement (.ifThen test yes line)).children =
      [.expression test] ++ yes.map .statement := rfl
    rw [Statement.walk, hExpression, ih, actOn_node act (.statement (.ifThen test yes line)),
      hParts, actOn_append]
    simp only [Visitor.observing, bind_assoc, pure_bind]
  · intro test yes no line ihYes ihNo
    have hParts : (TreeNode.statement (.ifElse test yes no line)).children =
      [.expression test] ++ (yes.map .statement ++ no.map .statement) := rfl
    rw [Statement.walk, hExpression, ihYes, ihNo,
      actOn_node act (.statement (.ifElse test yes no line)), hParts, actOn_append, actOn_append]
    simp only [Visitor.observing, bind_assoc, pure_bind]
  · intro body test line ih
    have hParts : (TreeNode.statement (.loop body test line)).children =
      body.map .statement ++ [.expression test] := rfl
    rw [Statement.walk, hExpression, ih, actOn_node act (.statement (.loop body test line)),
      hParts, actOn_append]
    simp only [Visitor.observing, bind_assoc, pure_bind]
  · intro name value line
    have hParts : (TreeNode.statement (.assign name value line)).children =
        [.expression value] := rfl
    rw [Statement.walk, hExpression, actOn_node act (.statement (.assign name value line)), hParts]
    simp only [Visitor.observing, bind_assoc, pure_bind]
  · intro name line
    have hParts : (TreeNode.statement (.read name line)).children = [] := rfl
    rw [Statement.walk, actOn_node act (.statement (.read name line)), hParts]
    simp [actOn, Visitor.observing]
  · intro value line
    have hParts : (TreeNode.statement (.write value line)).children = [.expression value] := rfl
    rw [Statement.walk, hExpression, actOn_node act (.statement (.write value line)), hParts]
    simp only [Visitor.observing, bind_assoc, pure_bind]
  · simp [Program.walk, actOn]
  · intro first rest ihFirst ihRest
    have hParts : (first :: rest).map TreeNode.statement =
      [.statement first] ++ rest.map .statement := rfl
    rw [Program.walk, ihFirst, ihRest, hParts, actOn_append]
    simp only [bind_assoc, pure_bind]

end Observing

/-! ### Recorders -/

/-- What a recorder writes down for a call. -/
def Call.visit : Call → Visit
  | .enter (.statement s) => .enter s.mark
  | .enter (.expression e) => .enter e.mark
  | .leave (.statement s) => .leave s.mark
  | .leave (.expression e) => .leave e.mark

namespace Record

theorem recorder_eq (stop : Option Nat) :
    recorder stop = .observing fun call => note stop call.visit := rfl

theorem note_ok {stop : Option Nat} {visits : Array Visit} (h : stop ≠ some visits.size)
    (visit : Visit) : note stop visit visits = .ok () (visits.push visit) := by
  show (if stop = some visits.size then throw stopped else pure () : Record Unit) _ = _
  rw [if_neg h]
  rfl

theorem note_stop (visits : Array Visit) (visit : Visit) :
    note (some visits.size) visit visits = .error stopped (visits.push visit) := by
  show (if some visits.size = some visits.size then throw stopped else pure () : Record Unit) _ = _
  rw [if_pos rfl]
  rfl

/-- Calls before the one that fails are written down. -/
theorem forM_note {stop : Option Nat} {calls : List Call} {visits : Array Visit}
    (h : ∀ k, stop = some k → visits.size + calls.length ≤ k) :
    (forM calls fun call => note stop call.visit : Record Unit) visits =
      .ok () (visits ++ (calls.map Call.visit).toArray) := by
  induction calls generalizing visits with
  | nil =>
    rw [List.forM_nil, List.map_nil, Array.append_empty]
    rfl
  | cons call calls ih =>
    have hNext : stop ≠ some visits.size := by
      intro hStop
      have := h _ hStop
      rw [List.length_cons] at this
      omega
    rw [List.forM_cons, bind_of_ok (note_ok hNext call.visit), ih]
    · simp
    · intro k hStop
      have := h k hStop
      rw [List.length_cons] at this
      rw [Array.size_push]
      omega

/-- **A recorder stops at the call that fails**, and has written it down. -/
theorem forM_note_stop (before : List Call) (call : Call) (after : List Call) :
    (forM (before ++ call :: after) fun call => note (some before.length) call.visit :
      Record Unit) #[] = .error stopped ((before ++ [call]).map Call.visit).toArray := by
  have hBefore : (forM before fun call => note (some before.length) call.visit : Record Unit) #[] =
      .ok () (before.map Call.visit).toArray := by
    rw [forM_note, Array.empty_append]
    intro k hStop
    obtain rfl := Option.some.inj hStop
    simp
  have hStop := note_stop (before.map Call.visit).toArray call.visit
  rw [List.size_toArray, List.length_map] at hStop
  rw [List.forM_append, bind_of_ok hBefore, List.forM_cons, bind_of_error hStop]
  simp

end Record

namespace Program

/-- The number of nodes of a program. -/
def size (p : Program) : Nat :=
  (p.map fun s => (TreeNode.statement s).size).sum

/-- The nodes of a program, each before its parts. -/
def preorder (p : Program) : List TreeNode :=
  p.flatMap fun s => (TreeNode.statement s).preorder

theorem length_calls (p : Program) : (calls p).length = 2 * size p := by
  rw [calls, List.length_flatMap, List.map_map, size, ← List.sum_map_mul_left]
  congr 1
  exact List.map_congr_left fun s _ => (TreeNode.statement s).length_calls

theorem walk_recorder (stop : Option Nat) (p : Program) :
    Program.walk (Record.recorder stop) p = (do
      forM (calls p) fun call => Record.note stop call.visit
      return p : Record Program) := by
  rw [Record.recorder_eq, (walk_observing _).2]
  rfl

theorem visits_of_lt {p : Program} {k : Nat} (h : k < (calls p).length) :
    visits (some k) p =
      ((((calls p).take (k + 1)).map Call.visit).toArray, some Record.stopped) := by
  have hBefore : ((calls p).take k).length = k := List.length_take_of_le (Nat.le_of_lt h)
  have hStop := Record.forM_note_stop ((calls p).take k) (calls p)[k] ((calls p).drop (k + 1))
  rw [hBefore, ← List.drop_eq_getElem_cons h, List.take_append_drop,
    List.take_append_getElem] at hStop
  rw [visits, walk_recorder, bind_of_error hStop]

theorem visits_of_le {p : Program} {k : Nat} (h : (calls p).length ≤ k) :
    visits (some k) p = (((calls p).map Call.visit).toArray, none) := by
  have hAll := @Record.forM_note (some k) (calls p) #[] (by
    intro k' hStop
    obtain rfl := Option.some.inj hStop
    simpa using h)
  rw [Array.empty_append] at hAll
  rw [visits, walk_recorder, bind_of_ok hAll]
  rfl

/-- **A walk is nested, and stops at once.**  The recorder leaves the tree alone and writes down two
calls for each node; those for the parts of a node are between the two for the node itself.  The
nodes are entered in preorder and left in postorder.  A recorder that fails at some call has written
down the calls up to that one, and only if there are so many calls the walk fails. -/
theorem visits_nested (p : Program) :
    (∀ node : TreeNode,
      node.calls = .enter node :: node.children.flatMap TreeNode.calls ++ [.leave node]) ∧
    calls p = (p.map TreeNode.statement).flatMap TreeNode.calls ∧
    (calls p).length = 2 * size p ∧
    (calls p).filterMap Call.entered? = preorder p ∧
    (calls p).filterMap Call.left? = postorder p ∧
    Program.walk (Record.recorder none) p #[] = .ok p ((calls p).map Call.visit).toArray ∧
    ∀ k, (((calls p).take (k + 1)).map Call.visit).length = min (k + 1) (2 * size p) ∧
      visits (some k) p = ((((calls p).take (k + 1)).map Call.visit).toArray,
        if k < 2 * size p then some Record.stopped else none) := by
  have hLength := length_calls p
  refine ⟨TreeNode.calls_eq, rfl, hLength, ?_, ?_, ?_, fun k => ⟨?_, ?_⟩⟩
  · rw [calls, List.filterMap_flatMap, List.flatMap_map, preorder]
    exact List.flatMap_congr fun s _ => (TreeNode.statement s).filterMap_entered
  · rw [calls, List.filterMap_flatMap, ← TreeNode.flatMap_postorder]
    exact List.flatMap_congr fun node _ => node.filterMap_left
  · have hAll := @Record.forM_note none (calls p) #[] nofun
    rw [Array.empty_append] at hAll
    rw [walk_recorder, bind_of_ok hAll]
    rfl
  · rw [List.length_map, List.length_take, hLength]
  · by_cases hk : k < 2 * size p
    · rw [visits_of_lt (by omega), if_pos hk]
    · rw [visits_of_le (by omega), if_neg hk, List.take_of_length_le (by omega)]

end Program

end Tiny
