import Tiny.Command

/-!
# The program

Runs the command on the system at hand.
-/

namespace Tiny

/-- The fault for an error of the system. -/
def OsFault.ofError : IO.Error → OsFault
  | .noFileOrDirectory .. => .noEntry
  | .inappropriateType _ 20 _ => .notDirectory
  | .inappropriateType _ 21 _ => .isDirectory
  | error => .other (toString error)

/-- Tries an action on the system. -/
def attemptIO {α : Type} (action : IO α) : IO (Except OsFault α) := do
  try
    return .ok (← action)
  catch error =>
    return .error (.ofError error)

/-- Reads a stream to its end. -/
partial def readAll (stream : IO.FS.Stream) (read : ByteArray) : IO ByteArray := do
  let bytes ← stream.read 65536
  if bytes.isEmpty then return read else readAll stream (read ++ bytes)

/-- The services of the system at hand. -/
def systemHost : Host IO where
  openSource path := attemptIO do
    let handle ← IO.FS.Handle.mk path .read
    try
      return Feed.ofBytes (← handle.readBinToEnd).data.toList
    catch _ =>
      return [.failure OsFault.isDirectory.message]
  readFile path := attemptIO (IO.FS.readBinFile path)
  writeFile path content := attemptIO (IO.FS.writeBinFile path content)
  readInput := do
    readAll (← IO.getStdin) ByteArray.empty
  print text := IO.print text

/-- How the command is called. -/
def usage : String :=
  "usage: tinyc [--lex | --parse | --analyze] [--echo-source] [--trace-scan] [--trace-parse] " ++
    "[--trace-analyze] [--trace-code] [--all-traces] [--run] [-v] [-o FILE] PATH"

end Tiny

/-- Compiles the source that the arguments name. -/
def main (arguments : List String) : IO UInt32 := do
  match Tiny.Request.ofArguments? arguments with
  | none =>
    IO.eprintln Tiny.usage
    return 1
  | some request =>
    match ← (Tiny.Command.run Tiny.systemHost request).run with
    | .ok _ => return 0
    | .error failure =>
      IO.eprintln ("tinyc: " ++ failure.message)
      return 1
