/-!
# Sources

A source is read line by line.  Its `Feed` lists what a reader meets, in order: the arrival of a
line, its bytes, and at most one failed read.  A read that fails has already handed out the bytes
before the point of failure; they are not counted as a line, and the rest of that line arrives
later as a line of its own.
-/

namespace Tiny

/-- What a reader of a source meets. -/
inductive Reading where
  /-- A line arrives; its bytes follow. -/
  | line (bytes : List UInt8)
  | byte (b : UInt8)
  /-- A read fails, for the given reason. -/
  | failure (reason : String)
deriving DecidableEq, Repr

/-- All that a reader of a source meets. -/
abbrev Feed := List Reading

namespace Feed

/-- The line feed, which ends a line. -/
def lineFeed : UInt8 := 10

/-- Splits bytes behind every line feed, given the bytes of an unfinished line in reverse. -/
def splitFrom (line : List UInt8) : List UInt8 → List (List UInt8)
  | [] => if line.isEmpty then [] else [line.reverse]
  | b :: rest =>
    if b = lineFeed then (b :: line).reverse :: splitFrom [] rest
    else splitFrom (b :: line) rest

/-- The lines of some bytes, each with its line feed; the last one may lack it. -/
def splitLines (bytes : List UInt8) : List (List UInt8) :=
  splitFrom [] bytes

/-- The feed of lines whose reading never fails. -/
def ofLines (lines : List (List UInt8)) : Feed :=
  lines.flatMap fun line => .line line :: line.map .byte

/-- Whether a line has its line feed, so that its reader need not look further. -/
def isEnded (line : List UInt8) : Bool :=
  line.getLast? == some lineFeed

/-- The feed of lines whose reading fails once, when `countdown` bytes were handed out and one more
is needed, be it only to learn that there is none. -/
def ofLinesFailing (reason : String) (countdown : Nat) : List (List UInt8) → Feed
  | [] => if countdown = 0 then [.failure reason] else []
  | line :: lines =>
    if countdown < line.length ∨ (countdown = line.length ∧ ¬ isEnded line) then
      .failure reason :: (line.take countdown).map .byte ++
        ofLines ((line.drop countdown :: lines).filter fun rest => !rest.isEmpty)
    else
      .line line :: line.map .byte ++ ofLinesFailing reason (countdown - line.length) lines

/-- The feed of bytes whose reading never fails. -/
def ofBytes (bytes : List UInt8) : Feed :=
  ofLines (splitLines bytes)

/-- The feed of bytes whose reading fails once, after `countdown` of them. -/
def ofBytesFailing (reason : String) (countdown : Nat) (bytes : List UInt8) : Feed :=
  ofLinesFailing reason countdown (splitLines bytes)

end Feed

end Tiny
