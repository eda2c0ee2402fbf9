import Tiny.Feed
import Tiny.Focus
import Tiny.Options
import Tiny.Sink
import Tiny.Text.Align
import Tiny.Token

/-!
# From a feed to tokens

A scanner takes tokens off a feed one at a time.  Blanks and comments between tokens are skipped.
A number and a word are as long as possible; every other token is `:=` or a single byte.  Lines are
echoed to the listing when they arrive and tokens when they are complete.

When a read or a write fails in the middle of a token, the bytes taken so far are lost, and the
next call goes on behind them.
-/

namespace Tiny

/-- Bytes that separate tokens. -/
def isSpaceByte (b : UInt8) : Bool :=
  b == 0x20 || b == 0x09 || b == 0x0A || b == 0x0C || b == 0x0D

/-- The digits from `0` to `9`. -/
def isDigitByte (b : UInt8) : Bool :=
  0x30 ≤ b && b ≤ 0x39

/-- The letters from `A` to `Z` and from `a` to `z`. -/
def isLetterByte (b : UInt8) : Bool :=
  (0x41 ≤ b && b ≤ 0x5A) || (0x61 ≤ b && b ≤ 0x7A)

/-- The byte that opens a comment. -/
def commentOpen : UInt8 := 0x7B

/-- The byte that closes a comment. -/
def commentClose : UInt8 := 0x7D

/-- The first byte of `:=`. -/
def colon : UInt8 := 0x3A

/-- The second byte of `:=`. -/
def equalSign : UInt8 := 0x3D

/-- The longest lexeme that a token keeps. -/
def maxLexeme : Nat := 40

/-- Bytes as text, each byte as the character of the same number. -/
def lexemeOf (bytes : List UInt8) : String :=
  String.ofList (bytes.map Char.ofUInt8)

namespace Token

/-- The token of a run of digits or letters.  A run that is too long keeps its first part only, and
stands for no number or name. -/
def ofRun (kindOf : String → TokenKind) (run : List UInt8) (line : Nat) : Token :=
  if run.length ≤ maxLexeme then ⟨kindOf (lexemeOf run), lexemeOf run, line⟩
  else ⟨.unknown, lexemeOf (run.take maxLexeme), line⟩

end Token

/-- The state of scanning: what is still to be read, the number of lines that arrived, and the
listing. -/
structure Scanner where
  feed : Feed
  lineno : Nat := 0
  listing : Sink := {}
  options : Options := {}

/-- Work on a scanner. -/
abbrev Scan := EStateM Fault Scanner

namespace Scanner

/-- The listing as a part of the scanner. -/
def listingPart : Focus Scanner Sink where
  get := Scanner.listing
  set listing scanner := { scanner with listing }

/-- Writes to the listing. -/
def write (text : String) : Scan Unit :=
  listingPart.on (Sink.write text)

/-- Goes on with the given feed. -/
def goOn (feed : Feed) : Scan Unit :=
  modify fun scanner => { scanner with feed }

/-- The line of the listing that shows line number `lineno` of the source. -/
def echoed (lineno : Nat) (line : List UInt8) : String :=
  let text := Text.decode ⟨line.toArray⟩
  let ending := if text.toList.getLast? = some '\n' then "" else "\n"
  Text.alignRight 4 (toString lineno) ++ ": " ++ text ++ ending

/-- Takes a line that arrives before `rest`. -/
def arrive (line : List UInt8) (rest : Feed) : Scan Unit := do
  modify fun scanner => { scanner with feed := rest, lineno := scanner.lineno + 1 }
  let scanner ← get
  if scanner.options.echoSource then write (echoed scanner.lineno line)

/-- Reports a read that fails before `rest`. -/
def failRead {α : Type} (reason : String) (rest : Feed) : Scan α := do
  goOn rest
  throw (.io reason)

/-- Skips blanks and comments and takes the byte behind them, if there is one.  Also gives the line
of that byte; at the end of the source this is the line of the last comment, if that is still
open.  The argument `comment` is the line of the comment that is being skipped. -/
def skip (comment : Option Nat) : Feed → Scan (Nat × Option UInt8)
  | [] => do
    goOn []
    return (comment.getD (← get).lineno, none)
  | .failure reason :: rest => failRead reason rest
  | .line line :: rest => do
    arrive line rest
    skip comment rest
  | .byte b :: rest => do
    match comment with
    | some opened => if b = commentClose then skip none rest else skip (some opened) rest
    | none =>
      let lineno := (← get).lineno
      if isSpaceByte b then skip none rest
      else if b = commentOpen then skip (some lineno) rest
      else
        goOn rest
        return (lineno, some b)

/-- Takes bytes as long as they satisfy `p`. -/
def takeRun (p : UInt8 → Bool) : Feed → Scan (List UInt8)
  | [] => do
    goOn []
    return []
  | .failure reason :: rest => failRead reason rest
  | .line line :: rest => do
    arrive line rest
    takeRun p rest
  | .byte b :: rest => do
    if p b then return b :: (← takeRun p rest)
    else
      goOn (.byte b :: rest)
      return []

/-- Takes one byte if it is `b`, and says whether it did. -/
def takeByte (b : UInt8) : Feed → Scan Bool
  | [] => do
    goOn []
    return false
  | .failure reason :: rest => failRead reason rest
  | .line line :: rest => do
    arrive line rest
    takeByte b rest
  | .byte c :: rest => do
    if c = b then
      goOn rest
      return true
    else
      goOn (.byte c :: rest)
      return false

/-- Takes the rest of the token that starts with `first`. -/
def token (line : Nat) (first : UInt8) : Scan Token := do
  if isDigitByte first then
    let run ← takeRun isDigitByte (← get).feed
    return .ofRun (fun _ => .number) (first :: run) line
  else if isLetterByte first then
    let run ← takeRun isLetterByte (← get).feed
    return .ofRun .ofWord (first :: run) line
  else if first = colon then
    if ← takeByte equalSign (← get).feed then return ⟨.assign, ":=", line⟩
    else return ⟨.unknown, ":", line⟩
  else return ⟨.ofByte first, lexemeOf [first], line⟩

/-- Takes the next token.  The lines of tokens start at 1. -/
def next : Scan Token := do
  let (lineno, first?) ← skip none (← get).feed
  let line := max lineno 1
  let taken ← match first? with
    | none => pure ⟨.endOfFile, "", line⟩
    | some first => token line first
  if (← get).options.traceScan then
    write ("\t" ++ toString taken.line ++ ": " ++ taken.describe ++ "\n")
  return taken

/-- Takes tokens up to the end of the source, at most `bound` of them. -/
def drain : (bound : Nat) → Scan (List Token)
  | 0 => return []
  | bound + 1 => do
    let taken ← next
    if taken.kind = .endOfFile then return [taken]
    else return taken :: (← drain bound)

/-- An upper bound for the number of tokens of a scanner, with the end of the source. -/
def tokenBound (scanner : Scanner) : Nat :=
  scanner.feed.length + 1

/-- The outcome of one call of `next`, and the scanner after it. -/
def call (scanner : Scanner) : Except Fault Token × Scanner :=
  match next scanner with
  | .ok taken after => (.ok taken, after)
  | .error fault after => (.error fault, after)

/-- Calls `next` at most `bound` times, as long as `goesOn` holds of the outcomes. -/
def calls (goesOn : Except Fault Token → Bool) :
    (bound : Nat) → Scanner → List (Except Fault Token × Scanner)
  | 0, _ => []
  | bound + 1, scanner =>
    let (outcome, after) := scanner.call
    (outcome, after) :: if goesOn outcome then calls goesOn bound after else []

/-- Whether an outcome is neither a fault nor the end of the source. -/
def isOpen : Except Fault Token → Bool
  | .ok taken => taken.kind != .endOfFile
  | .error _ => false

end Scanner

end Tiny
