import Tiny.Text.Align
import Tiny.Tree

/-!
# Outlines

The outline of a program has a line for every node, indented by two spaces for every node around
it.
-/

namespace Tiny

/-- A line of an outline at some depth. -/
def outlineLine (depth : Nat) (label : String) : String :=
  Text.spaces (2 * depth) ++ label ++ "\n"

namespace Expression

/-- What the outline shows of an expression, its operands left out. -/
def label : Expression → String
  | .binary op _ _ _ _ => "Op: " ++ op.symbol
  | .constant value _ _ => "Const: " ++ toString value.toInt
  | .reference name _ _ => "Id: " ++ name
  | .malformed _ => "<error>"

/-- The outline of an expression: itself, then its operands one level deeper. -/
def outline (depth : Nat) : Expression → List String
  | .binary op lhs rhs line type =>
    outlineLine depth (label (.binary op lhs rhs line type)) ::
      (outline (depth + 1) lhs ++ outline (depth + 1) rhs)
  | leaf => [outlineLine depth leaf.label]

end Expression

mutual

/-- The outline of a statement: itself, then its parts one level deeper, in source order. -/
def Statement.outline (depth : Nat) : Statement → List String
  | .ifThen test yes _ =>
    outlineLine depth "If" :: (test.outline (depth + 1) ++ Program.outline (depth + 1) yes)
  | .ifElse test yes no _ =>
    outlineLine depth "If" ::
      (test.outline (depth + 1) ++ Program.outline (depth + 1) yes ++
        Program.outline (depth + 1) no)
  | .loop body test _ =>
    outlineLine depth "Repeat" :: (Program.outline (depth + 1) body ++ test.outline (depth + 1))
  | .assign name value _ =>
    outlineLine depth ("Assign to: " ++ name) :: value.outline (depth + 1)
  | .read name _ => [outlineLine depth ("Read: " ++ name)]
  | .write value _ => outlineLine depth "Write" :: value.outline (depth + 1)

/-- The outline of a sequence of statements. -/
def Program.outline (depth : Nat) : List Statement → List String
  | [] => []
  | statement :: rest => statement.outline depth ++ Program.outline depth rest

end

/-- The outline of a program as text. -/
def Program.dump (program : Program) : String :=
  String.join (Program.outline 0 program)

end Tiny
