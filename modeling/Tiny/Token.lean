/-!
# Tokens

The kinds of tokens of TINY, and how single bytes and words are classified.
-/

namespace Tiny

/-- The reserved words. -/
inductive Keyword where
  | kwIf
  | kwThen
  | kwElse
  | kwEnd
  | kwRepeat
  | kwUntil
  | kwRead
  | kwWrite
deriving DecidableEq, Repr

namespace Keyword

/-- The keyword that a word spells. -/
def ofWord? : String → Option Keyword
  | "if" => some .kwIf
  | "then" => some .kwThen
  | "else" => some .kwElse
  | "end" => some .kwEnd
  | "repeat" => some .kwRepeat
  | "until" => some .kwUntil
  | "read" => some .kwRead
  | "write" => some .kwWrite
  | _ => none

end Keyword

/-- The kinds of tokens.  `unknown` is whatever belongs to no other kind. -/
inductive TokenKind where
  | keyword (word : Keyword)
  | assign
  | equal
  | less
  | plus
  | hyphen
  | star
  | slash
  | leftParen
  | rightParen
  | semicolon
  | identifier
  | number
  | endOfFile
  | unknown
deriving DecidableEq, Repr

namespace TokenKind

/-- The kind of a word of letters: a reserved word or an identifier. -/
def ofWord (word : String) : TokenKind :=
  match Keyword.ofWord? word with
  | some reserved => .keyword reserved
  | none => .identifier

/-- The kind of a token of one byte. -/
def ofByte (b : UInt8) : TokenKind :=
  if b = 0x3D then .equal
  else if b = 0x3C then .less
  else if b = 0x2B then .plus
  else if b = 0x2D then .hyphen
  else if b = 0x2A then .star
  else if b = 0x2F then .slash
  else if b = 0x28 then .leftParen
  else if b = 0x29 then .rightParen
  else if b = 0x3B then .semicolon
  else .unknown

/-- Whether tokens of this kind are reserved words. -/
def isReserved : TokenKind → Bool
  | .keyword _ => true
  | _ => false

end TokenKind

/-- A token: its kind, how it is written, and the line on which it starts. -/
structure Token where
  kind : TokenKind
  lexeme : String
  line : Nat
deriving DecidableEq, Repr

namespace Token

/-- How a token is named in listings and messages. -/
def describe (token : Token) : String :=
  match token.kind with
  | .keyword _ => "reserved word: " ++ token.lexeme
  | .assign => ":="
  | .equal => "="
  | .less => "<"
  | .plus => "+"
  | .hyphen => "-"
  | .star => "*"
  | .slash => "/"
  | .leftParen => "("
  | .rightParen => ")"
  | .semicolon => ";"
  | .identifier => "ID, name= " ++ token.lexeme
  | .number => "NUM, val= " ++ token.lexeme
  | .endOfFile => "EOF"
  | .unknown => "ERROR: " ++ token.lexeme

end Token

end Tiny
