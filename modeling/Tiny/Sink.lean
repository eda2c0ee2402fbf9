import Tiny.Fault
import Tiny.Text.Utf8

/-!
# Sinks

A sink takes text, as UTF-8, up to an optional limit of bytes.  Writing past the limit keeps the
bytes that fit and fails.
-/

namespace Tiny

/-- Bytes written so far, and how many bytes may be written in all. -/
structure Sink where
  written : ByteArray := ByteArray.empty
  limit : Option Nat := none

namespace Sink

/-- The fault of writing past the limit. -/
def full : Fault := .io "sink full"

/-- Writes a text. -/
def write (text : String) : EStateM Fault Sink Unit := fun sink =>
  let bytes := text.toUTF8
  match sink.limit with
  | none => .ok () { sink with written := sink.written ++ bytes }
  | some limit =>
    let room := limit - sink.written.size
    if bytes.size ≤ room then .ok () { sink with written := sink.written ++ bytes }
    else .error full { sink with written := sink.written ++ bytes.extract 0 room }

/-- What was written, as text. -/
def text (sink : Sink) : String :=
  Text.decode sink.written

end Sink

end Tiny
