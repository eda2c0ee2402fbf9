/-!
# Decimal numbers within bounds

Reading a decimal number goes through its digits from the left and stops at the first one that is
no digit or that takes the value out of bounds.
-/

namespace Tiny

/-- Why a text is not a number within bounds. -/
inductive NumberFault where
  | empty
  | invalidDigit
  | tooLarge
  | tooSmall
deriving DecidableEq, Repr

namespace NumberFault

/-- The wording of a fault. -/
def message : NumberFault → String
  | .empty => "cannot parse integer from empty string"
  | .invalidDigit => "invalid digit found in string"
  | .tooLarge => "number too large to fit in target type"
  | .tooSmall => "number too small to fit in target type"

end NumberFault

namespace Decimal

/-- The value of a digit from `0` to `9`. -/
def digit? (c : Char) : Option Nat :=
  if '0' ≤ c ∧ c ≤ '9' then some (c.toNat - '0'.toNat) else none

/-- Reads digits behind a number of value `value` that may not pass `high`. -/
def readUp (high : Nat) (value : Nat) : List Char → Except NumberFault Nat
  | [] => .ok value
  | c :: rest =>
    match digit? c with
    | none => .error .invalidDigit
    | some d =>
      if value * 10 + d ≤ high then readUp high (value * 10 + d) rest else .error .tooLarge

/-- Reads the digits of a negative number whose size may not pass `low`. -/
def readDown (low : Nat) (digits : List Char) : Except NumberFault Int :=
  match readUp low 0 digits with
  | .ok value => .ok (-value)
  | .error .tooLarge => .error .tooSmall
  | .error fault => .error fault

/-- Reads a number from `0` to `high`, with an optional plus sign. -/
def readNat (high : Nat) : List Char → Except NumberFault Nat
  | [] => .error .empty
  | ['+'] => .error .invalidDigit
  | '+' :: digits => readUp high 0 digits
  | digits => readUp high 0 digits

/-- Reads a number from `-low` to `high`, with an optional sign. -/
def readInt (low high : Nat) : List Char → Except NumberFault Int
  | [] => .error .empty
  | ['+'] => .error .invalidDigit
  | ['-'] => .error .invalidDigit
  | '+' :: digits => (readUp high 0 digits).map Int.ofNat
  | '-' :: digits => readDown low digits
  | digits => (readUp high 0 digits).map Int.ofNat

/-- Reads a location, a number of 64 bits without sign. -/
def readLocation (digits : List Char) : Except NumberFault Nat :=
  readNat 18446744073709551615 digits

/-- Reads a machine word, a number of 32 bits with sign. -/
def readWord (digits : List Char) : Except NumberFault Int32 :=
  (readInt 2147483648 2147483647 digits).map Int32.ofInt

end Decimal

end Tiny
