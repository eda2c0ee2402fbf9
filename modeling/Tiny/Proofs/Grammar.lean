import Tiny.Tree
import Tiny.Token

/-!
# The grammar

The grammar of TINY, with its derivations as data:

    program       := stmt-sequence
    stmt-sequence := statement ( ';' statement )*
    statement     := if-stmt | repeat-stmt | assign-stmt | read-stmt | write-stmt
    if-stmt       := 'if' exp 'then' stmt-sequence ( 'else' stmt-sequence )? 'end'
    repeat-stmt   := 'repeat' stmt-sequence 'until' exp
    assign-stmt   := IDENT ':=' exp
    read-stmt     := 'read' IDENT
    write-stmt    := 'write' exp
    exp           := simple-exp ( ('<' | '=') simple-exp )?
    simple-exp    := term ( ('+' | '-') term )*
    term          := factor ( ('*' | '/') factor )*
    factor        := NUMBER | IDENT | '(' exp ')'

A derivation holds the tokens it derives (`tokens`) and denotes a tree (`tree`).  Nothing here
knows of a parser.

* A derivation is determined by its tokens: `Sequence.eq_of_tokens`.
* The tree of a derivation is intact, as said by `Program.Intact`: `Sequence.intact_tree`.
-/

namespace Tiny

/-! ### Intact trees -/

/-- No part is malformed, and no type has been found. -/
def Expression.Intact : Expression → Prop
  | .binary _ lhs rhs _ type => lhs.Intact ∧ rhs.Intact ∧ type = .unresolved
  | .constant _ _ type => type = .unresolved
  | .reference _ _ type => type = .unresolved
  | .malformed _ => False

mutual

/-- The expressions are intact, and no sequence is empty. -/
def Statement.Intact : Statement → Prop
  | .ifThen test yes _ => test.Intact ∧ yes ≠ [] ∧ Program.Intact yes
  | .ifElse test yes no _ =>
    test.Intact ∧ yes ≠ [] ∧ Program.Intact yes ∧ no ≠ [] ∧ Program.Intact no
  | .loop body test _ => body ≠ [] ∧ Program.Intact body ∧ test.Intact
  | .assign _ value _ => value.Intact
  | .read _ _ => True
  | .write value _ => value.Intact

/-- Every statement is intact. -/
def Program.Intact : List Statement → Prop
  | [] => True
  | first :: rest => first.Intact ∧ Program.Intact rest

end

namespace Grammar

/-! ### Derivations -/

/-- The signs between factors, and what they stand for. -/
def products : List (TokenKind × Operator) :=
  [(.star, .mul), (.slash, .div)]

/-- The signs between terms. -/
def sums : List (TokenKind × Operator) :=
  [(.plus, .add), (.hyphen, .sub)]

/-- The signs between simple expressions. -/
def comparisons : List (TokenKind × Operator) :=
  [(.less, .less), (.equal, .equal)]

/-- A token of the given kind. -/
@[ext] structure Lexed (kind : TokenKind) where
  token : Token
  is : token.kind = kind

/-- A token that is one of the given signs. -/
structure Sign (table : List (TokenKind × Operator)) where
  token : Token
  op : Operator
  listed : (token.kind, op) ∈ table

/-- A number that fits a machine word. -/
@[ext] structure Numeral extends Lexed .number where
  fits : Nat.ofDigitChars 10 token.lexeme.toList 0 ≤ 2147483647

/-- The decimal value of a number. -/
def Numeral.value (numeral : Numeral) : Nat :=
  Nat.ofDigitChars 10 numeral.token.lexeme.toList 0

mutual

/-- The derivations from `factor`. -/
inductive Factor where
  | number (numeral : Numeral)
  | name (name : Lexed .identifier)
  | parens (left : Lexed .leftParen) (inner : Exp) (right : Lexed .rightParen)

/-- The derivations from `( ('*' | '/') factor )*`. -/
inductive Products where
  | none
  | more (sign : Sign products) (factor : Factor) (rest : Products)

/-- The derivations from `term`. -/
inductive Term where
  | mk (first : Factor) (rest : Products)

/-- The derivations from `( ('+' | '-') term )*`. -/
inductive Sums where
  | none
  | more (sign : Sign sums) (term : Term) (rest : Sums)

/-- The derivations from `simple-exp`. -/
inductive Simple where
  | mk (first : Term) (rest : Sums)

/-- The derivations from `exp`. -/
inductive Exp where
  | simple (only : Simple)
  | comparison (left : Simple) (sign : Sign comparisons) (right : Simple)

end

mutual

/-- The derivations from `statement`. -/
inductive Stmt where
  | ifThen (opening : Lexed (.keyword .kwIf)) (test : Exp) (middle : Lexed (.keyword .kwThen))
      (yes : Sequence) (closing : Lexed (.keyword .kwEnd))
  | ifElse (opening : Lexed (.keyword .kwIf)) (test : Exp) (middle : Lexed (.keyword .kwThen))
      (yes : Sequence) (turn : Lexed (.keyword .kwElse)) (no : Sequence)
      (closing : Lexed (.keyword .kwEnd))
  | loop (opening : Lexed (.keyword .kwRepeat)) (body : Sequence)
      (closing : Lexed (.keyword .kwUntil)) (test : Exp)
  | assign (name : Lexed .identifier) (sign : Lexed .assign) (value : Exp)
  | read (opening : Lexed (.keyword .kwRead)) (name : Lexed .identifier)
  | write (opening : Lexed (.keyword .kwWrite)) (value : Exp)

/-- The derivations from `( ';' statement )*`. -/
inductive Rest where
  | none
  | more (separator : Lexed .semicolon) (next : Stmt) (rest : Rest)

/-- The derivations from `stmt-sequence`, which are also those from `program`. -/
inductive Sequence where
  | mk (first : Stmt) (rest : Rest)

end

/-! ### The tokens of a derivation -/

mutual

/-- The tokens that a derivation derives, in order. -/
def Factor.tokens : Factor → List Token
  | .number numeral => [numeral.token]
  | .name name => [name.token]
  | .parens left inner right => left.token :: (inner.tokens ++ [right.token])

@[inherit_doc Factor.tokens]
def Products.tokens : Products → List Token
  | .none => []
  | .more sign factor rest => sign.token :: (factor.tokens ++ rest.tokens)

@[inherit_doc Factor.tokens]
def Term.tokens : Term → List Token
  | .mk first rest => first.tokens ++ rest.tokens

@[inherit_doc Factor.tokens]
def Sums.tokens : Sums → List Token
  | .none => []
  | .more sign term rest => sign.token :: (term.tokens ++ rest.tokens)

@[inherit_doc Factor.tokens]
def Simple.tokens : Simple → List Token
  | .mk first rest => first.tokens ++ rest.tokens

@[inherit_doc Factor.tokens]
def Exp.tokens : Exp → List Token
  | .simple only => only.tokens
  | .comparison left sign right => left.tokens ++ sign.token :: right.tokens

end

mutual

@[inherit_doc Factor.tokens]
def Stmt.tokens : Stmt → List Token
  | .ifThen opening test middle yes closing =>
    opening.token :: (test.tokens ++ middle.token :: (yes.tokens ++ [closing.token]))
  | .ifElse opening test middle yes turn no closing =>
    opening.token :: (test.tokens ++ middle.token ::
      (yes.tokens ++ turn.token :: (no.tokens ++ [closing.token])))
  | .loop opening body closing test =>
    opening.token :: (body.tokens ++ closing.token :: test.tokens)
  | .assign name sign value => name.token :: sign.token :: value.tokens
  | .read opening name => [opening.token, name.token]
  | .write opening value => opening.token :: value.tokens

@[inherit_doc Factor.tokens]
def Rest.tokens : Rest → List Token
  | .none => []
  | .more separator next rest => separator.token :: (next.tokens ++ rest.tokens)

@[inherit_doc Factor.tokens]
def Sequence.tokens : Sequence → List Token
  | .mk first rest => first.tokens ++ rest.tokens

end

theorem Factor.length_tokens_pos (d : Factor) : 0 < d.tokens.length := by
  cases d <;> exact Nat.succ_pos _

theorem Term.length_tokens_pos (d : Term) : 0 < d.tokens.length := by
  cases d with
  | mk first rest =>
    have := first.length_tokens_pos
    rw [Term.tokens, List.length_append]
    omega

theorem Stmt.length_tokens_pos (d : Stmt) : 0 < d.tokens.length := by
  cases d <;> exact Nat.succ_pos _

/-! ### The tree of a derivation -/

/-- The operation of a sign on two trees, on the line of the sign. -/
def Sign.join {table : List (TokenKind × Operator)} (sign : Sign table) (lhs rhs : Expression) :
    Expression :=
  .binary sign.op lhs rhs sign.token.line .unresolved

mutual

/-- The tree that a derivation denotes.  Parentheses leave no node. -/
def Factor.tree : Factor → Expression
  | .number numeral => .constant (.ofNat numeral.value) numeral.token.line .unresolved
  | .name name => .reference name.token.lexeme name.token.line .unresolved
  | .parens _ inner _ => inner.tree

/-- The tree of a chain behind `lhs`, grouped to the left. -/
def Products.tree (lhs : Expression) : Products → Expression
  | .none => lhs
  | .more sign factor rest => rest.tree (sign.join lhs factor.tree)

@[inherit_doc Factor.tree]
def Term.tree : Term → Expression
  | .mk first rest => rest.tree first.tree

@[inherit_doc Products.tree]
def Sums.tree (lhs : Expression) : Sums → Expression
  | .none => lhs
  | .more sign term rest => rest.tree (sign.join lhs term.tree)

@[inherit_doc Factor.tree]
def Simple.tree : Simple → Expression
  | .mk first rest => rest.tree first.tree

@[inherit_doc Factor.tree]
def Exp.tree : Exp → Expression
  | .simple only => only.tree
  | .comparison left sign right => sign.join left.tree right.tree

end

mutual

/-- The statement that a derivation denotes, on the line of its first token. -/
def Stmt.tree : Stmt → Statement
  | .ifThen opening test _ yes _ => .ifThen test.tree yes.tree opening.token.line
  | .ifElse opening test _ yes _ no _ => .ifElse test.tree yes.tree no.tree opening.token.line
  | .loop opening body _ test => .loop body.tree test.tree opening.token.line
  | .assign name _ value => .assign name.token.lexeme value.tree name.token.line
  | .read opening name => .read name.token.lexeme opening.token.line
  | .write opening value => .write value.tree opening.token.line

/-- The statements that a derivation denotes, in order. -/
def Rest.tree : Rest → List Statement
  | .none => []
  | .more _ next rest => next.tree :: rest.tree

@[inherit_doc Rest.tree]
def Sequence.tree : Sequence → List Statement
  | .mk first rest => first.tree :: rest.tree

end

/-! ### What may follow

A part of a derivation is never cut short: behind it comes a token with which it cannot go on. -/

/-- A kind that is none of the given signs. -/
def Apart (table : List (TokenKind × Operator)) (kind : TokenKind) : Prop :=
  kind ∉ table.map Prod.fst

instance (table : List (TokenKind × Operator)) : DecidablePred (Apart table) :=
  fun kind => inferInstanceAs (Decidable (kind ∉ table.map Prod.fst))

/-- The signs of expressions. -/
def signs : List (TokenKind × Operator) :=
  products ++ sums ++ comparisons

/-- A kind that may follow a sequence of statements. -/
def Closes (kind : TokenKind) : Prop :=
  Apart signs kind ∧ kind ≠ .semicolon

instance : DecidablePred Closes :=
  fun kind => inferInstanceAs (Decidable (Apart signs kind ∧ kind ≠ .semicolon))

/-- The first token, if there is one, is of such a kind. -/
def Starts (P : TokenKind → Prop) : List Token → Prop
  | [] => True
  | token :: _ => P token.kind

theorem Starts.imp {P Q : TokenKind → Prop} {tokens : List Token} (h : Starts P tokens)
    (hPQ : ∀ kind, P kind → Q kind) : Starts Q tokens := by
  cases tokens with
  | nil => trivial
  | cons token rest => exact hPQ _ h

theorem starts_lexed {P : TokenKind → Prop} {kind : TokenKind} (lexed : Lexed kind)
    (rest : List Token) (h : P kind) : Starts P (lexed.token :: rest) := by
  rw [Starts, lexed.is]
  exact h

theorem Apart.left {a b : List (TokenKind × Operator)} {kind : TokenKind}
    (h : Apart (a ++ b) kind) : Apart a kind := by
  rw [Apart, List.map_append] at h
  exact fun member => h (List.mem_append_left _ member)

theorem Apart.right {a b : List (TokenKind × Operator)} {kind : TokenKind}
    (h : Apart (a ++ b) kind) : Apart b kind := by
  rw [Apart, List.map_append] at h
  exact fun member => h (List.mem_append_right _ member)

theorem Sign.not_apart {table : List (TokenKind × Operator)} (sign : Sign table) :
    ¬ Apart table sign.token.kind :=
  fun h => h (List.mem_map_of_mem sign.listed)

theorem starts_sign {table other : List (TokenKind × Operator)} (sign : Sign table)
    (rest : List Token) (h : ∀ entry ∈ table, Apart other entry.1) :
    Starts (Apart other) (sign.token :: rest) :=
  h _ sign.listed

theorem Sums.starts (rest : Sums) {behind : List Token}
    (h : Starts (Apart (products ++ sums)) behind) :
    Starts (Apart products) (rest.tokens ++ behind) := by
  cases rest with
  | none => exact h.imp fun _ apart => apart.left
  | more sign term rest => exact starts_sign sign _ (by decide)

theorem Rest.starts (rest : Rest) {behind : List Token} (h : Starts Closes behind) :
    Starts (Apart signs) (rest.tokens ++ behind) := by
  cases rest with
  | none => exact h.imp fun _ closes => closes.1
  | more separator next rest => exact starts_lexed separator _ (by decide)

/-! ### A derivation is determined by its tokens -/

theorem Lexed.kinds_eq {k l : TokenKind} {a : Lexed k} {b : Lexed l} (h : a.token = b.token) :
    k = l := by
  rw [← a.is, ← b.is, h]

theorem Sign.eq_of_token {table : List (TokenKind × Operator)}
    (functional : ∀ a ∈ table, ∀ b ∈ table, a.1 = b.1 → a = b) {a b : Sign table}
    (h : a.token = b.token) : a = b := by
  obtain ⟨token, op, ha⟩ := a
  obtain ⟨_, op', hb⟩ := b
  obtain rfl : token = _ := h
  obtain ⟨-, rfl⟩ := Prod.mk.inj (functional _ ha _ hb rfl)
  rfl

mutual

/-- A factor is determined by any tokens that start with its own. -/
theorem Factor.eq_of_append : ∀ (d d' : Factor) {r r' : List Token},
    d.tokens ++ r = d'.tokens ++ r' → d = d' ∧ r = r'
  | .number a, d', r, r', h => by
    cases d' with
    | number b =>
      obtain ⟨hToken, rfl⟩ := List.cons.inj h
      exact ⟨congrArg _ (Numeral.ext hToken), rfl⟩
    | name b => exact nomatch Lexed.kinds_eq (a := a.toLexed) (List.cons.inj h).1
    | parens b _ _ => exact nomatch Lexed.kinds_eq (a := a.toLexed) (List.cons.inj h).1
  | .name a, d', r, r', h => by
    cases d' with
    | number b => exact nomatch Lexed.kinds_eq (b := b.toLexed) (List.cons.inj h).1
    | name b =>
      obtain ⟨hToken, rfl⟩ := List.cons.inj h
      exact ⟨congrArg _ (Lexed.ext hToken), rfl⟩
    | parens b _ _ => exact nomatch Lexed.kinds_eq (List.cons.inj h).1
  | .parens left inner right, d', r, r', h => by
    cases d' with
    | number b => exact nomatch Lexed.kinds_eq (b := b.toLexed) (List.cons.inj h).1
    | name b => exact nomatch Lexed.kinds_eq (List.cons.inj h).1
    | parens left' inner' right' =>
      simp only [Factor.tokens, List.cons_append, List.append_assoc, List.nil_append] at h
      obtain ⟨hLeft, h⟩ := List.cons.inj h
      obtain ⟨rfl, hBehind⟩ := inner.eq_of_append inner' (starts_lexed right _ (by decide))
        (starts_lexed right' _ (by decide)) h
      obtain ⟨hRight, rfl⟩ := List.cons.inj hBehind
      rw [Lexed.ext hLeft, Lexed.ext hRight]
      exact ⟨rfl, rfl⟩

theorem Products.eq_of_append : ∀ (d d' : Products) {r r' : List Token},
    Starts (Apart products) r → Starts (Apart products) r' →
    d.tokens ++ r = d'.tokens ++ r' → d = d' ∧ r = r'
  | .none, d', r, r', hr, hr', h => by
    cases d' with
    | none => exact ⟨rfl, h⟩
    | more sign factor rest =>
      obtain rfl : r = _ := h
      exact absurd hr sign.not_apart
  | .more sign factor rest, d', r, r', hr, hr', h => by
    cases d' with
    | none =>
      obtain rfl : _ = r' := h
      exact absurd hr' sign.not_apart
    | more sign' factor' rest' =>
      simp only [Products.tokens, List.cons_append, List.append_assoc] at h
      obtain ⟨hSign, h⟩ := List.cons.inj h
      obtain ⟨rfl, hRest⟩ := factor.eq_of_append factor' h
      obtain ⟨rfl, rfl⟩ := rest.eq_of_append rest' hr hr' hRest
      rw [Sign.eq_of_token (by decide) hSign]
      exact ⟨rfl, rfl⟩

theorem Term.eq_of_append : ∀ (d d' : Term) {r r' : List Token},
    Starts (Apart products) r → Starts (Apart products) r' →
    d.tokens ++ r = d'.tokens ++ r' → d = d' ∧ r = r'
  | .mk first rest, .mk first' rest', r, r', hr, hr', h => by
    simp only [Term.tokens, List.append_assoc] at h
    obtain ⟨rfl, hRest⟩ := first.eq_of_append first' h
    obtain ⟨rfl, rfl⟩ := rest.eq_of_append rest' hr hr' hRest
    exact ⟨rfl, rfl⟩

theorem Sums.eq_of_append : ∀ (d d' : Sums) {r r' : List Token},
    Starts (Apart (products ++ sums)) r → Starts (Apart (products ++ sums)) r' →
    d.tokens ++ r = d'.tokens ++ r' → d = d' ∧ r = r'
  | .none, d', r, r', hr, hr', h => by
    cases d' with
    | none => exact ⟨rfl, h⟩
    | more sign term rest =>
      obtain rfl : r = _ := h
      exact absurd (Apart.right hr) sign.not_apart
  | .more sign term rest, d', r, r', hr, hr', h => by
    cases d' with
    | none =>
      obtain rfl : _ = r' := h
      exact absurd (Apart.right hr') sign.not_apart
    | more sign' term' rest' =>
      simp only [Sums.tokens, List.cons_append, List.append_assoc] at h
      obtain ⟨hSign, h⟩ := List.cons.inj h
      obtain ⟨rfl, hRest⟩ := term.eq_of_append term' (rest.starts hr) (rest'.starts hr') h
      obtain ⟨rfl, rfl⟩ := rest.eq_of_append rest' hr hr' hRest
      rw [Sign.eq_of_token (by decide) hSign]
      exact ⟨rfl, rfl⟩

theorem Simple.eq_of_append : ∀ (d d' : Simple) {r r' : List Token},
    Starts (Apart (products ++ sums)) r → Starts (Apart (products ++ sums)) r' →
    d.tokens ++ r = d'.tokens ++ r' → d = d' ∧ r = r'
  | .mk first rest, .mk first' rest', r, r', hr, hr', h => by
    simp only [Simple.tokens, List.append_assoc] at h
    obtain ⟨rfl, hRest⟩ := first.eq_of_append first' (rest.starts hr) (rest'.starts hr') h
    obtain ⟨rfl, rfl⟩ := rest.eq_of_append rest' hr hr' hRest
    exact ⟨rfl, rfl⟩

theorem Exp.eq_of_append : ∀ (d d' : Exp) {r r' : List Token},
    Starts (Apart signs) r → Starts (Apart signs) r' →
    d.tokens ++ r = d'.tokens ++ r' → d = d' ∧ r = r'
  | .simple only, d', r, r', hr, hr', h => by
    cases d' with
    | simple only' =>
      obtain ⟨rfl, rfl⟩ := only.eq_of_append only' (hr.imp fun _ => Apart.left)
        (hr'.imp fun _ => Apart.left) h
      exact ⟨rfl, rfl⟩
    | comparison left sign right =>
      simp only [Exp.tokens, List.cons_append, List.append_assoc] at h
      obtain ⟨-, rfl⟩ := only.eq_of_append left (hr.imp fun _ => Apart.left)
        (starts_sign sign _ (by decide)) h
      exact absurd (Apart.right hr) sign.not_apart
  | .comparison left sign right, d', r, r', hr, hr', h => by
    cases d' with
    | simple only =>
      simp only [Exp.tokens, List.cons_append, List.append_assoc] at h
      obtain ⟨-, rfl⟩ := left.eq_of_append only (starts_sign sign _ (by decide))
        (hr'.imp fun _ => Apart.left) h
      exact absurd (Apart.right hr') sign.not_apart
    | comparison left' sign' right' =>
      simp only [Exp.tokens, List.cons_append, List.append_assoc] at h
      obtain ⟨rfl, hBehind⟩ := left.eq_of_append left' (starts_sign sign _ (by decide))
        (starts_sign sign' _ (by decide)) h
      obtain ⟨hSign, hRight⟩ := List.cons.inj hBehind
      obtain ⟨rfl, rfl⟩ := right.eq_of_append right' (hr.imp fun _ => Apart.left)
        (hr'.imp fun _ => Apart.left) hRight
      rw [Sign.eq_of_token (by decide) hSign]
      exact ⟨rfl, rfl⟩

end

/-- The kind of the first token of a statement. -/
def Stmt.opener : Stmt → TokenKind
  | .ifThen .. | .ifElse .. => .keyword .kwIf
  | .loop .. => .keyword .kwRepeat
  | .assign .. => .identifier
  | .read .. => .keyword .kwRead
  | .write .. => .keyword .kwWrite

theorem Stmt.tokens_eq_cons (d : Stmt) :
    ∃ token rest, d.tokens = token :: rest ∧ token.kind = d.opener := by
  cases d <;> exact ⟨_, _, rfl, Lexed.is _⟩

theorem Stmt.openers_eq {d d' : Stmt} {r r' : List Token}
    (h : d.tokens ++ r = d'.tokens ++ r') : d.opener = d'.opener := by
  obtain ⟨token, rest, hTokens, hOpener⟩ := d.tokens_eq_cons
  obtain ⟨token', rest', hTokens', hOpener'⟩ := d'.tokens_eq_cons
  rw [hTokens, hTokens'] at h
  rw [← hOpener, ← hOpener', (List.cons.inj h).1]

mutual

/-- A statement is determined by any tokens that start with its own and go on with one that cannot
belong to it. -/
theorem Stmt.eq_of_append : ∀ (d d' : Stmt) {r r' : List Token},
    Starts (Apart signs) r → Starts (Apart signs) r' →
    d.tokens ++ r = d'.tokens ++ r' → d = d' ∧ r = r'
  | .ifThen opening test middle yes closing, d', r, r', hr, hr', h => by
    cases d' with
    | ifThen opening' test' middle' yes' closing' =>
      simp only [Stmt.tokens, List.cons_append, List.append_assoc, List.nil_append] at h
      obtain ⟨hOpening, hTest⟩ := List.cons.inj h
      obtain ⟨rfl, hAfterTest⟩ := test.eq_of_append test' (starts_lexed middle _ (by decide))
        (starts_lexed middle' _ (by decide)) hTest
      obtain ⟨hMiddle, hYes⟩ := List.cons.inj hAfterTest
      obtain ⟨rfl, hAfterYes⟩ := yes.eq_of_append yes' (starts_lexed closing _ (by decide))
        (starts_lexed closing' _ (by decide)) hYes
      obtain ⟨hClosing, rfl⟩ := List.cons.inj hAfterYes
      rw [Lexed.ext hOpening, Lexed.ext hMiddle, Lexed.ext hClosing]
      exact ⟨rfl, rfl⟩
    | ifElse opening' test' middle' yes' turn no closing' =>
      simp only [Stmt.tokens, List.cons_append, List.append_assoc, List.nil_append] at h
      obtain ⟨-, hTest⟩ := List.cons.inj h
      obtain ⟨-, hAfterTest⟩ := test.eq_of_append test' (starts_lexed middle _ (by decide))
        (starts_lexed middle' _ (by decide)) hTest
      obtain ⟨-, hYes⟩ := List.cons.inj hAfterTest
      obtain ⟨-, hAfterYes⟩ := yes.eq_of_append yes' (starts_lexed closing _ (by decide))
        (starts_lexed turn _ (by decide)) hYes
      exact nomatch Lexed.kinds_eq (List.cons.inj hAfterYes).1
    | _ => exact nomatch Stmt.openers_eq h
  | .ifElse opening test middle yes turn no closing, d', r, r', hr, hr', h => by
    cases d' with
    | ifThen opening' test' middle' yes' closing' =>
      simp only [Stmt.tokens, List.cons_append, List.append_assoc, List.nil_append] at h
      obtain ⟨-, hTest⟩ := List.cons.inj h
      obtain ⟨-, hAfterTest⟩ := test.eq_of_append test' (starts_lexed middle _ (by decide))
        (starts_lexed middle' _ (by decide)) hTest
      obtain ⟨-, hYes⟩ := List.cons.inj hAfterTest
      obtain ⟨-, hAfterYes⟩ := yes.eq_of_append yes' (starts_lexed turn _ (by decide))
        (starts_lexed closing' _ (by decide)) hYes
      exact nomatch Lexed.kinds_eq (List.cons.inj hAfterYes).1
    | ifElse opening' test' middle' yes' turn' no' closing' =>
      simp only [Stmt.tokens, List.cons_append, List.append_assoc, List.nil_append] at h
      obtain ⟨hOpening, hTest⟩ := List.cons.inj h
      obtain ⟨rfl, hAfterTest⟩ := test.eq_of_append test' (starts_lexed middle _ (by decide))
        (starts_lexed middle' _ (by decide)) hTest
      obtain ⟨hMiddle, hYes⟩ := List.cons.inj hAfterTest
      obtain ⟨rfl, hAfterYes⟩ := yes.eq_of_append yes' (starts_lexed turn _ (by decide))
        (starts_lexed turn' _ (by decide)) hYes
      obtain ⟨hTurn, hNo⟩ := List.cons.inj hAfterYes
      obtain ⟨rfl, hAfterNo⟩ := no.eq_of_append no' (starts_lexed closing _ (by decide))
        (starts_lexed closing' _ (by decide)) hNo
      obtain ⟨hClosing, rfl⟩ := List.cons.inj hAfterNo
      rw [Lexed.ext hOpening, Lexed.ext hMiddle, Lexed.ext hTurn, Lexed.ext hClosing]
      exact ⟨rfl, rfl⟩
    | _ => exact nomatch Stmt.openers_eq h
  | .loop opening body closing test, d', r, r', hr, hr', h => by
    cases d' with
    | loop opening' body' closing' test' =>
      simp only [Stmt.tokens, List.cons_append, List.append_assoc] at h
      obtain ⟨hOpening, hBody⟩ := List.cons.inj h
      obtain ⟨rfl, hAfterBody⟩ := body.eq_of_append body' (starts_lexed closing _ (by decide))
        (starts_lexed closing' _ (by decide)) hBody
      obtain ⟨hClosing, hTest⟩ := List.cons.inj hAfterBody
      obtain ⟨rfl, rfl⟩ := test.eq_of_append test' hr hr' hTest
      rw [Lexed.ext hOpening, Lexed.ext hClosing]
      exact ⟨rfl, rfl⟩
    | _ => exact nomatch Stmt.openers_eq h
  | .assign name sign value, d', r, r', hr, hr', h => by
    cases d' with
    | assign name' sign' value' =>
      simp only [Stmt.tokens, List.cons_append] at h
      obtain ⟨hName, h⟩ := List.cons.inj h
      obtain ⟨hSign, hValue⟩ := List.cons.inj h
      obtain ⟨rfl, rfl⟩ := value.eq_of_append value' hr hr' hValue
      rw [Lexed.ext hName, Lexed.ext hSign]
      exact ⟨rfl, rfl⟩
    | _ => exact nomatch Stmt.openers_eq h
  | .read opening name, d', r, r', hr, hr', h => by
    cases d' with
    | read opening' name' =>
      obtain ⟨hOpening, h⟩ := List.cons.inj h
      obtain ⟨hName, rfl⟩ := List.cons.inj h
      rw [Lexed.ext hOpening, Lexed.ext hName]
      exact ⟨rfl, rfl⟩
    | _ => exact nomatch Stmt.openers_eq h
  | .write opening value, d', r, r', hr, hr', h => by
    cases d' with
    | write opening' value' =>
      simp only [Stmt.tokens, List.cons_append] at h
      obtain ⟨hOpening, hValue⟩ := List.cons.inj h
      obtain ⟨rfl, rfl⟩ := value.eq_of_append value' hr hr' hValue
      rw [Lexed.ext hOpening]
      exact ⟨rfl, rfl⟩
    | _ => exact nomatch Stmt.openers_eq h

theorem Rest.eq_of_append : ∀ (d d' : Rest) {r r' : List Token},
    Starts Closes r → Starts Closes r' →
    d.tokens ++ r = d'.tokens ++ r' → d = d' ∧ r = r'
  | .none, d', r, r', hr, hr', h => by
    cases d' with
    | none => exact ⟨rfl, h⟩
    | more separator next rest =>
      obtain rfl : r = _ := h
      exact absurd separator.is hr.2
  | .more separator next rest, d', r, r', hr, hr', h => by
    cases d' with
    | none =>
      obtain rfl : _ = r' := h
      exact absurd separator.is hr'.2
    | more separator' next' rest' =>
      simp only [Rest.tokens, List.cons_append, List.append_assoc] at h
      obtain ⟨hSeparator, h⟩ := List.cons.inj h
      obtain ⟨rfl, hRest⟩ := next.eq_of_append next' (rest.starts hr) (rest'.starts hr') h
      obtain ⟨rfl, rfl⟩ := rest.eq_of_append rest' hr hr' hRest
      rw [Lexed.ext hSeparator]
      exact ⟨rfl, rfl⟩

theorem Sequence.eq_of_append : ∀ (d d' : Sequence) {r r' : List Token},
    Starts Closes r → Starts Closes r' →
    d.tokens ++ r = d'.tokens ++ r' → d = d' ∧ r = r'
  | .mk first rest, .mk first' rest', r, r', hr, hr', h => by
    simp only [Sequence.tokens, List.append_assoc] at h
    obtain ⟨rfl, hRest⟩ := first.eq_of_append first' (rest.starts hr) (rest'.starts hr') h
    obtain ⟨rfl, rfl⟩ := rest.eq_of_append rest' hr hr' hRest
    exact ⟨rfl, rfl⟩

end

/-- **A derivation is determined by its tokens.** -/
theorem Sequence.eq_of_tokens {d d' : Sequence} (h : d.tokens = d'.tokens) : d = d' :=
  (@Sequence.eq_of_append d d' [] [] trivial trivial (congrArg (· ++ []) h)).1

/-! ### The tokens of a derivation are known -/

/-- Tokens that were understood, all before the end. -/
def Known (tokens : List Token) : Prop :=
  ∀ token ∈ tokens, token.kind ≠ .endOfFile ∧ token.kind ≠ .unknown

theorem Known.append {a b : List Token} (ha : Known a) (hb : Known b) : Known (a ++ b) :=
  List.forall_mem_append.mpr ⟨ha, hb⟩

theorem Lexed.known {kind : TokenKind} (lexed : Lexed kind) {rest : List Token}
    (hKind : kind ≠ .endOfFile ∧ kind ≠ .unknown) (h : Known rest) :
    Known (lexed.token :: rest) := by
  refine List.forall_mem_cons.mpr ⟨?_, h⟩
  rw [lexed.is]
  exact hKind

theorem Sign.known {table : List (TokenKind × Operator)} (sign : Sign table) {rest : List Token}
    (hTable : ∀ entry ∈ table, entry.1 ≠ .endOfFile ∧ entry.1 ≠ .unknown) (h : Known rest) :
    Known (sign.token :: rest) :=
  List.forall_mem_cons.mpr ⟨hTable _ sign.listed, h⟩

theorem known_nil : Known [] :=
  fun _ h => nomatch h

mutual

theorem Factor.known : ∀ d : Factor, Known d.tokens
  | .number numeral => numeral.toLexed.known (by decide) known_nil
  | .name name => name.known (by decide) known_nil
  | .parens left inner right =>
    left.known (by decide) (inner.known.append (right.known (by decide) known_nil))

theorem Products.known : ∀ d : Products, Known d.tokens
  | .none => known_nil
  | .more sign factor rest => sign.known (by decide) (factor.known.append rest.known)

theorem Term.known : ∀ d : Term, Known d.tokens
  | .mk first rest => first.known.append rest.known

theorem Sums.known : ∀ d : Sums, Known d.tokens
  | .none => known_nil
  | .more sign term rest => sign.known (by decide) (term.known.append rest.known)

theorem Simple.known : ∀ d : Simple, Known d.tokens
  | .mk first rest => first.known.append rest.known

theorem Exp.known : ∀ d : Exp, Known d.tokens
  | .simple only => only.known
  | .comparison left sign right => left.known.append (sign.known (by decide) right.known)

end

mutual

theorem Stmt.known : ∀ d : Stmt, Known d.tokens
  | .ifThen opening test middle yes closing =>
    opening.known (by decide) (test.known.append (middle.known (by decide)
      (yes.known.append (closing.known (by decide) known_nil))))
  | .ifElse opening test middle yes turn no closing =>
    opening.known (by decide) (test.known.append (middle.known (by decide)
      (yes.known.append (turn.known (by decide)
        (no.known.append (closing.known (by decide) known_nil))))))
  | .loop opening body closing test =>
    opening.known (by decide) (body.known.append (closing.known (by decide) test.known))
  | .assign name sign value => name.known (by decide) (sign.known (by decide) value.known)
  | .read opening name => opening.known (by decide) (name.known (by decide) known_nil)
  | .write opening value => opening.known (by decide) value.known

theorem Rest.known : ∀ d : Rest, Known d.tokens
  | .none => known_nil
  | .more separator next rest => separator.known (by decide) (next.known.append rest.known)

theorem Sequence.known : ∀ d : Sequence, Known d.tokens
  | .mk first rest => first.known.append rest.known

end

/-! ### The tree of a derivation is intact -/

theorem Sign.intact_join {table : List (TokenKind × Operator)} (sign : Sign table)
    {lhs rhs : Expression} (hl : lhs.Intact) (hr : rhs.Intact) : (sign.join lhs rhs).Intact :=
  ⟨hl, hr, rfl⟩

mutual

theorem Factor.intact_tree : ∀ d : Factor, d.tree.Intact
  | .number _ => rfl
  | .name _ => rfl
  | .parens _ inner _ => inner.intact_tree

theorem Products.intact_tree : ∀ (d : Products) {lhs : Expression}, lhs.Intact →
    (d.tree lhs).Intact
  | .none, _, h => h
  | .more sign factor rest, _, h => rest.intact_tree (sign.intact_join h factor.intact_tree)

theorem Term.intact_tree : ∀ d : Term, d.tree.Intact
  | .mk first rest => rest.intact_tree first.intact_tree

theorem Sums.intact_tree : ∀ (d : Sums) {lhs : Expression}, lhs.Intact → (d.tree lhs).Intact
  | .none, _, h => h
  | .more sign term rest, _, h => rest.intact_tree (sign.intact_join h term.intact_tree)

theorem Simple.intact_tree : ∀ d : Simple, d.tree.Intact
  | .mk first rest => rest.intact_tree first.intact_tree

theorem Exp.intact_tree : ∀ d : Exp, d.tree.Intact
  | .simple only => only.intact_tree
  | .comparison left sign right => sign.intact_join left.intact_tree right.intact_tree

end

theorem Sequence.tree_ne_nil (d : Sequence) : d.tree ≠ [] := by
  cases d with
  | mk first rest => exact List.cons_ne_nil _ _

mutual

theorem Stmt.intact_tree : ∀ d : Stmt, d.tree.Intact
  | .ifThen _ test _ yes _ => ⟨test.intact_tree, yes.tree_ne_nil, yes.intact_tree⟩
  | .ifElse _ test _ yes _ no _ =>
    ⟨test.intact_tree, yes.tree_ne_nil, yes.intact_tree, no.tree_ne_nil, no.intact_tree⟩
  | .loop _ body _ test => ⟨body.tree_ne_nil, body.intact_tree, test.intact_tree⟩
  | .assign _ _ value => value.intact_tree
  | .read _ _ => trivial
  | .write _ value => value.intact_tree

theorem Rest.intact_tree : ∀ d : Rest, Program.Intact d.tree
  | .none => trivial
  | .more _ next rest => ⟨next.intact_tree, rest.intact_tree⟩

/-- **The tree of a derivation is intact.** -/
theorem Sequence.intact_tree : ∀ d : Sequence, Program.Intact d.tree
  | .mk first rest => ⟨first.intact_tree, rest.intact_tree⟩

end

end Grammar

end Tiny
