/-!
# Paths

A path is text with slashes between its components.  Slashes and single dots at its end are not
part of the file name; the names `.` and `..` are no file names.  The extension is what follows the
last dot of the file name, unless that dot is its first character.
-/

namespace Tiny.Path

/-- Drops slashes and single dots from the end of a path that is given in reverse. -/
def dropTail : List Char → List Char
  | '/' :: rest => dropTail rest
  | '.' :: '/' :: rest => dropTail rest
  | rest => rest

/-- Splits a path before its file name. -/
def split? (path : String) : Option (List Char × List Char) :=
  let (name, directory) := (dropTail path.toList.reverse).span (· ≠ '/')
  if name = [] ∨ name = ['.'] ∨ name = ['.', '.'] then none
  else some (directory.reverse, name.reverse)

/-- Splits a file name at the dot of its extension. -/
def splitName? (name : List Char) : Option (List Char × List Char) :=
  match name.reverse.span (· ≠ '.') with
  | (extension, '.' :: stem) => if stem = [] then none else some (stem.reverse, extension.reverse)
  | _ => none

/-- The part of a file name before its extension. -/
def stem (name : List Char) : List Char :=
  match splitName? name with
  | some (stem, _) => stem
  | none => name

/-- The extension of a path. -/
def extension? (path : String) : Option String := do
  let (_, name) ← split? path
  let (_, extension) ← splitName? name
  return String.ofList extension

/-- Gives the file name of a path an extension in place of its own, and drops what stands behind the
file name.  A path without a file name stays as it is. -/
def setExtension (path extension : String) : String :=
  match split? path with
  | none => path
  | some (directory, name) => String.ofList (directory ++ stem name) ++ "." ++ extension

/-- Cuts a number of characters off the end of a path. -/
def cutEnd (path : String) (count : Nat) : String :=
  String.ofList (path.toList.take (path.toList.length - count))

/-- Replaces the extension of a path: as many characters as the old one has are cut off the end
before the new one is set.  Where this leaves two dots there is no file name any more, and they are
all that remains of it. -/
def withExtension (path extension : String) : String :=
  match extension? path with
  | none => setExtension path extension
  | some old => setExtension (cutEnd path old.length) extension

end Tiny.Path
