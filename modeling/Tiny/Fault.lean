import Tiny.Text.Quoted

/-!
# Faults

A fault stops the work that meets it, in contrast to a diagnostic, which is about the program
text and is collected.
-/

namespace Tiny

/-- What grows while a program is read. -/
inductive Storage where
  | symbols
  | tree
deriving DecidableEq, Repr

namespace Storage

/-- The name of the storage in messages. -/
def name : Storage → String
  | .symbols => "symbol table"
  | .tree => "syntax tree"

end Storage

/-- How the placing of instructions goes wrong. -/
inductive PatchFault where
  | branchRange (target : Nat)
  | notReserved (location : Nat)
  | unpatched (location : Nat)
  | other (reason : String)
deriving DecidableEq, Repr

namespace PatchFault

/-- The wording of a fault. -/
def message : PatchFault → String
  | .branchRange target => "branch to " ++ toString target ++ " is out of range"
  | .notReserved location =>
    "location " ++ toString location ++ " was not reserved or is already filled"
  | .unpatched location => "reserved location " ++ toString location ++ " was never patched"
  | .other reason => reason

end PatchFault

/-- What stops a compilation. -/
inductive Fault where
  /-- Reading or writing failed, in the words of whatever was read or written. -/
  | io (reason : String)
  | outOfMemory (storage : Storage)
  | backpatch (cause : PatchFault)
  /-- Code was asked for an expression that could not be read. -/
  | malformedTree (line : Nat)
  /-- Code was asked for a name without a location. -/
  | unknownSymbol (name : String)
deriving DecidableEq, Repr

namespace Fault

/-- The wording of a fault. -/
def message : Fault → String
  | .io reason => "i/o error: " ++ reason
  | .outOfMemory storage => "out of memory while building the " ++ storage.name
  | .backpatch cause => "backpatch error: " ++ cause.message
  | .malformedTree line =>
    "no code can be generated for a malformed expression at line " ++ toString line
  | .unknownSymbol name => "identifier " ++ Text.quote name ++ " has no storage location"

end Fault

end Tiny
