import Tiny.Feed

/-!
# The host of the command

What the command asks of the system it runs on: to open, read and write files by path, to read the
standard input, and to print.
-/

namespace Tiny

/-- Why the system refuses a path. -/
inductive OsFault where
  | noEntry
  | notDirectory
  | isDirectory
  | nameTooLong
  | other (reason : String)
deriving DecidableEq, Repr

namespace OsFault

/-- The wording of a fault. -/
def message : OsFault → String
  | .noEntry => "No such file or directory (os error 2)"
  | .notDirectory => "Not a directory (os error 20)"
  | .isDirectory => "Is a directory (os error 21)"
  | .nameTooLong => "File name too long (os error 36)"
  | .other reason => reason

end OsFault

/-- The services of a system. -/
structure Host (m : Type → Type) where
  /-- Opens a file to be read as a source.  A directory can be opened too, and fails when read. -/
  openSource : String → m (Except OsFault Feed)
  /-- The content of a file. -/
  readFile : String → m (Except OsFault ByteArray)
  /-- Replaces the content of a file, or makes the file. -/
  writeFile : String → ByteArray → m (Except OsFault Unit)
  /-- The whole standard input. -/
  readInput : m ByteArray
  /-- Writes to the standard output. -/
  print : String → m Unit

end Tiny
