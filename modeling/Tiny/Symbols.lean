import Tiny.Text.Align
import Tiny.Tree.Walk

/-!
# Symbol tables

A symbol table gives every name a location, in the order in which the names first occur, and knows
the lines of all its occurrences.  The location of a name is its place in the table.
-/

namespace Tiny

/-- A name and the lines on which it occurs. -/
structure Symbol where
  name : String
  lines : List Nat
deriving DecidableEq, Repr

/-- The names of a program, by location. -/
structure Symbols where
  entries : List Symbol := []
deriving DecidableEq, Repr

namespace Symbols

/-- The number of names, which is also the next free location. -/
def size (symbols : Symbols) : Nat :=
  symbols.entries.length

/-- Adds an occurrence to the entry of its name, or to a new entry behind the others. -/
def insertInto (name : String) (line : Nat) : List Symbol → List Symbol
  | [] => [⟨name, [line]⟩]
  | symbol :: rest =>
    if symbol.name = name then ⟨symbol.name, symbol.lines ++ [line]⟩ :: rest
    else symbol :: insertInto name line rest

/-- Records that a name occurs on a line. -/
def insert (symbols : Symbols) (name : String) (line : Nat) : Symbols :=
  ⟨insertInto name line symbols.entries⟩

/-- The location of a name. -/
def location? (symbols : Symbols) (name : String) : Option Nat :=
  symbols.entries.findIdx? fun symbol => symbol.name = name

/-- The entry of a name. -/
def get? (symbols : Symbols) (name : String) : Option Symbol :=
  symbols.entries.find? fun symbol => symbol.name = name

/-- The visitor that collects names: the targets of assignments and reads when their statement is
entered, and references. -/
def collector : Visitor (StateM Symbols) :=
  { Visitor.idle with
    enterStatement := fun
      | .assign name _ line => modify fun symbols => symbols.insert name line
      | .read name line => modify fun symbols => symbols.insert name line
      | _ => pure ()
    enterExpression := fun
      | .reference name line _ => modify fun symbols => symbols.insert name line
      | _ => pure () }

/-- The symbol table of a program. -/
def ofProgram (program : Program) : Symbols :=
  ((Program.walk collector program).run {}).2

/-- The line of a dump for the symbol at a location. -/
def row (symbol : Symbol) (location : Nat) : String :=
  Text.alignLeft 14 symbol.name ++ " " ++ Text.alignLeft 8 (toString location) ++ "  " ++
    String.join (symbol.lines.map fun line => Text.alignRight 4 (toString line) ++ " ") ++ "\n"

/-- The table as text, by location. -/
def dump (symbols : Symbols) : String :=
  "Variable Name  Location   Line Numbers\n" ++
  "-------------  --------   ------------\n" ++
  String.join (symbols.entries.zipIdx.map fun (symbol, location) => row symbol location)

end Symbols

end Tiny
