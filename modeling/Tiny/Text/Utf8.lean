/-!
# Reading bytes as text

`decode` reads bytes as UTF-8.  Bytes that are well formed are read as they stand; otherwise every
maximal malformed part becomes one replacement character, so that `decode` is total and the text
around a malformed part survives.
-/

namespace Tiny.Text

/-- What is still owed by a character whose first bytes were read: the bits so far, the number of
bytes to come and the range of the next one. -/
structure Owed where
  bits : Nat
  count : Nat
  low : UInt8 := 0x80
  high : UInt8 := 0xBF

/-- The character that stands for a malformed part. -/
def replacement : Char := '\uFFFD'

/-- The first byte of a character: the text it completes and what it leaves owed. -/
def openByte (b : UInt8) : String × Option Owed :=
  if b < 0x80 then (String.singleton (Char.ofUInt8 b), none)
  else if b < 0xC2 then (String.singleton replacement, none)
  else if b < 0xE0 then ("", some { bits := b.toNat - 0xC0, count := 1 })
  else if b < 0xF0 then
    ("", some { bits := b.toNat - 0xE0, count := 2
                low := if b = 0xE0 then 0xA0 else 0x80
                high := if b = 0xED then 0x9F else 0xBF })
  else if b < 0xF5 then
    ("", some { bits := b.toNat - 0xF0, count := 3
                low := if b = 0xF0 then 0x90 else 0x80
                high := if b = 0xF4 then 0x8F else 0xBF })
  else (String.singleton replacement, none)

/-- Any byte: one in the owed range continues the character, another one ends a malformed part
and is read afresh. -/
def readByte : Option Owed → UInt8 → String × Option Owed
  | none, b => openByte b
  | some owed, b =>
    if owed.low ≤ b ∧ b ≤ owed.high then
      let bits := owed.bits * 64 + (b.toNat - 0x80)
      if owed.count ≤ 1 then (String.singleton (Char.ofNat bits), none)
      else ("", some { bits := bits, count := owed.count - 1 })
    else
      let (text, next) := openByte b
      (String.singleton replacement ++ text, next)

/-- Reads the bytes behind the text `done`, from between two characters or inside one. -/
def repairFrom (done : String) : Option Owed → List UInt8 → String
  | none, [] => done
  | some _, [] => done.push replacement
  | owed, b :: rest =>
    let (text, next) := readByte owed b
    repairFrom (done ++ text) next rest

/-- The text of some bytes, each malformed part replaced. -/
def decode (bytes : ByteArray) : String :=
  match String.fromUTF8? bytes with
  | some text => text
  | none => repairFrom "" none bytes.data.toList

end Tiny.Text
