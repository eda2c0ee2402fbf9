/-!
# Diagnostics

A diagnostic tells what is wrong with a program text and on which line.  Diagnostics are collected
in the order in which they are found.
-/

namespace Tiny

/-- The part of the language that a diagnostic is about. -/
inductive Concern where
  | lexical
  | grammar
  | typing
deriving DecidableEq, Repr

/-- Something wrong with a program.  The text of a lexical diagnostic is the offending lexeme, that
of the others is a message. -/
structure Diagnostic where
  concern : Concern
  line : Nat
  text : String
deriving DecidableEq, Repr

namespace Diagnostic

/-- The wording of a diagnostic. -/
def message (diagnostic : Diagnostic) : String :=
  match diagnostic.concern with
  | .lexical =>
    "Lexical error at line " ++ toString diagnostic.line ++ ": unexpected token -> ERROR: " ++
      diagnostic.text
  | .grammar => "Syntax error at line " ++ toString diagnostic.line ++ ": " ++ diagnostic.text
  | .typing => "Type error at line " ++ toString diagnostic.line ++ ": " ++ diagnostic.text

end Diagnostic

/-- The diagnostics of a compilation, the first one found first. -/
abbrev Diagnostics := Array Diagnostic

namespace Diagnostics

/-- Whether anything was found. -/
def hasErrors (diagnostics : Diagnostics) : Bool :=
  !diagnostics.isEmpty

end Diagnostics

end Tiny
