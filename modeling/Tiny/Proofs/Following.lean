import Tiny.Proofs.Lookahead
import Tiny.Proofs.Unlined

/-!
# Parsing without lines

Two parsers that meet the same tokens, but perhaps on other lines, go in step: they ask for the same
tokens, report the same and build the same tree, up to lines.  One of them may give up where its
bound is too low.

* `Consumer.Follows`, `Parser.Follows`: one computation goes in step with another.
* `follows_program`: so does the parser of programs, with a larger bound.
* `follows_parse`: the programs and the diagnostics are the same up to lines, and nothing is
  reported about types.
-/

namespace Tiny

/-- The token without its line. -/
def Token.unlined (token : Token) : Token :=
  { token with line := 0 }

theorem Token.eq_of_unlined {a b : Token} (h : a.unlined = b.unlined) :
    a.kind = b.kind ∧ a.lexeme = b.lexeme := by
  obtain ⟨hKind, hLexeme, -⟩ := Token.mk.inj h
  exact ⟨hKind, hLexeme⟩

theorem Token.describe_of_unlined {a b : Token} (h : a.unlined = b.unlined) :
    a.describe = b.describe := by
  obtain ⟨hKind, hLexeme⟩ := Token.eq_of_unlined h
  rw [Token.describe, Token.describe, hKind, hLexeme]

/-! ### Consumers in step -/

namespace Consumer

variable {α β γ δ : Type}

/-- The consumers ask for tokens in step.  If these are the same up to lines, the results are
related, unless the first consumer gives up. -/
inductive Follows (R : α → β → Prop) : Consumer α → Consumer β → Prop
  | done {x : α} {y : β} (h : R x y) : Follows R (.done x) (.done y)
  | ask {next : Token → Consumer α} {next' : Token → Consumer β}
      (h : ∀ token token', token.unlined = token'.unlined →
        Follows R (next token) (next' token')) : Follows R (.ask next) (.ask next')
  | fail (fault : Fault) (other : Consumer β) : Follows R (.fail fault) other

theorem Follows.bind {R : α → β → Prop} {S : γ → δ → Prop} {c : Consumer α} {d : Consumer β}
    {f : α → Consumer γ} {g : β → Consumer δ} (h : Follows R c d)
    (hf : ∀ x y, R x y → Follows S (f x) (g y)) : Follows S (c >>= f) (d >>= g) := by
  induction h with
  | done h => exact hf _ _ h
  | ask h ih => exact .ask ih
  | fail fault other => exact .fail fault _

/-- Served from streams that are the same up to lines, consumers in step come to the same place. -/
theorem Follows.serve {R : α → β → Prop} {c : Consumer α} {d : Consumer β} (h : Follows R c d)
    {stream stream' : Nat → Token} (alike : ∀ i, (stream i).unlined = (stream' i).unlined)
    {i j : Nat} {x : α} (hServe : serve stream c i = .ok (x, j)) :
    ∃ y, serve stream' d i = .ok (y, j) ∧ R x y := by
  induction h generalizing i with
  | @done x' y h =>
    obtain ⟨rfl, rfl⟩ := Prod.mk.inj (Except.ok.inj hServe)
    exact ⟨y, rfl, h⟩
  | ask h ih => exact ih _ _ (alike i) hServe
  | fail fault other => exact nomatch hServe

end Consumer

/-! ### Parsers in step -/

/-- Two parsers look at the same token and reported the same, up to lines.  Nothing was reported
about types. -/
structure Lookahead.Alike (a b : Lookahead) : Prop where
  current : a.current.unlined = b.current.unlined
  diagnostics : Diagnostics.unlined a.diagnostics = Diagnostics.unlined b.diagnostics
  untyped : ∀ d ∈ a.diagnostics, d.concern ≠ .typing

namespace Parser

variable {α β γ δ : Type} {u : α → γ} {v : β → δ} {p q : Parser α}

/-- The parsers go in step.  Of their results, what `u` makes of them is the same. -/
def Follows (u : α → γ) (p q : Parser α) : Prop :=
  ∀ a b : Lookahead, a.Alike b →
    Consumer.Follows (fun x y => u x.1 = u y.1 ∧ x.2.Alike y.2) (p a) (q b)

theorem follows_pure {x y : α} (h : u x = u y) : Follows u (pure x) (pure y) :=
  fun _ _ alike => .done ⟨h, alike⟩

theorem Follows.bind {f g : α → Parser β} (h : Follows u p q)
    (hf : ∀ x y, u x = u y → Follows v (f x) (g y)) : Follows v (p >>= f) (q >>= g) :=
  fun a b alike => (h a b alike).bind fun x y same => hf x.1 y.1 same.1 x.2 y.2 same.2

theorem follows_current : Follows Token.unlined current current :=
  fun _ _ alike => .done ⟨alike.current, alike⟩

theorem follows_advance : Follows Token.unlined advance advance := by
  intro a b alike
  refine .ask fun token token' same => .done ⟨alike.current, ?_⟩
  exact ⟨same, alike.diagnostics, alike.untyped⟩

/-- A parser that gives up. -/
theorem follows_exhausted : Follows u exhausted q :=
  fun _ b _ => .fail _ (q b)

theorem follows_report {d e : Diagnostic} (same : d.unlined = e.unlined)
    (untyped : d.concern ≠ .typing) : Follows id (report d) (report e) := by
  intro a b alike
  refine .done ⟨rfl, alike.current, ?_, ?_⟩
  · show Diagnostics.unlined (a.diagnostics.push d) = Diagnostics.unlined (b.diagnostics.push e)
    rw [Diagnostics.unlined_push, Diagnostics.unlined_push, alike.diagnostics, same]
  · intro found hFound
    rcases Array.mem_push.mp hFound with hFound | rfl
    · exact alike.untyped found hFound
    · exact untyped

theorem follows_unexpected : Follows id unexpected unexpected := by
  refine follows_current.bind fun token token' same => ?_
  obtain ⟨hKind, hLexeme⟩ := Token.eq_of_unlined same
  rw [← hKind]
  split
  · refine follows_report ?_ nofun
    rw [Diagnostic.unlined, Diagnostic.unlined, hLexeme]
  · refine follows_report ?_ nofun
    rw [Diagnostic.unlined, Diagnostic.unlined, Token.describe_of_unlined same]

theorem follows_consume (kind : TokenKind) :
    Follows (Option.map Token.unlined) (consume kind) (consume kind) := by
  refine follows_current.bind fun token token' same => ?_
  rw [← (Token.eq_of_unlined same).1]
  split
  · exact follows_advance.bind fun passed passed' same => follows_pure (congrArg some same)
  · exact follows_unexpected.bind fun _ _ _ => follows_pure rfl

theorem follows_consumeName : Follows id consumeName consumeName := by
  refine (follows_consume .identifier).bind fun name name' same => follows_pure ?_
  cases name with
  | none =>
    cases name' with
    | none => rfl
    | some passed' => cases same
  | some passed =>
    cases name' with
    | none => cases same
    | some passed' => exact (Token.eq_of_unlined (Option.some.inj same)).2

/-! ### Expressions -/

section

variable {inner inner' : Parser Expression} {bound bound' : Nat}

theorem follows_factor (h : Follows Expression.unlined inner inner') :
    Follows Expression.unlined (factor inner) (factor inner') := by
  refine follows_current.bind fun token token' same => ?_
  obtain ⟨hKind, hLexeme⟩ := Token.eq_of_unlined same
  rw [← hKind]
  cases token.kind with
  | number =>
    refine follows_advance.bind fun _ _ _ => ?_
    have hConstant : constant? token' = constant? token := by
      rw [constant?, constant?, hLexeme]
    rw [hConstant]
    cases constant? token with
    | some value => exact follows_pure rfl
    | none =>
      have hReport : Follows id
          (report ⟨.grammar, token.line, "constant out of range -> " ++ token.describe⟩)
          (report ⟨.grammar, token'.line, "constant out of range -> " ++ token'.describe⟩) := by
        refine follows_report ?_ nofun
        rw [Diagnostic.unlined, Diagnostic.unlined, Token.describe_of_unlined same]
      exact hReport.bind fun _ _ _ => follows_pure rfl
  | identifier =>
    refine follows_advance.bind fun _ _ _ => follows_pure ?_
    rw [hLexeme]
    rfl
  | leftParen =>
    exact follows_advance.bind fun _ _ _ => h.bind fun _ _ same =>
      (follows_consume _).bind fun _ _ _ => follows_pure same
  | _ =>
    exact follows_unexpected.bind fun _ _ _ => follows_advance.bind fun _ _ _ =>
      follows_pure rfl

theorem follows_chain {operator? : TokenKind → Option Operator}
    {operand operand' : Parser Expression} (h : Follows Expression.unlined operand operand')
    (le : bound ≤ bound') {lhs lhs' : Expression} (same : lhs.unlined = lhs'.unlined) :
    Follows Expression.unlined (chain operator? operand bound lhs)
      (chain operator? operand' bound' lhs') := by
  induction bound generalizing bound' lhs lhs' with
  | zero => exact follows_exhausted
  | succ bound ih =>
    obtain ⟨bound', rfl⟩ : ∃ n, bound' = n + 1 := ⟨bound' - 1, by omega⟩
    refine follows_current.bind fun token token' sameToken => ?_
    rw [← (Token.eq_of_unlined sameToken).1]
    cases operator? token.kind with
    | none => exact follows_pure same
    | some op =>
      refine follows_advance.bind fun _ _ _ => h.bind fun rhs rhs' sameRight =>
        ih (Nat.le_of_succ_le_succ le) ?_
      rw [Expression.unlined, Expression.unlined, same, sameRight]

theorem follows_term (h : Follows Expression.unlined inner inner') (le : bound ≤ bound') :
    Follows Expression.unlined (term bound inner) (term bound' inner') :=
  (follows_factor h).bind fun _ _ same => follows_chain (follows_factor h) le same

theorem follows_sum (h : Follows Expression.unlined inner inner') (le : bound ≤ bound') :
    Follows Expression.unlined (sum bound inner) (sum bound' inner') :=
  (follows_term h le).bind fun _ _ same => follows_chain (follows_term h le) le same

theorem follows_comparison (h : Follows Expression.unlined inner inner') (le : bound ≤ bound') :
    Follows Expression.unlined (comparison bound inner) (comparison bound' inner') := by
  refine (follows_sum h le).bind fun lhs lhs' same => ?_
  refine follows_current.bind fun token token' sameToken => ?_
  rw [← (Token.eq_of_unlined sameToken).1]
  cases comparisonOperator? token.kind with
  | none => exact follows_pure same
  | some op =>
    refine follows_advance.bind fun _ _ _ => (follows_sum h le).bind fun rhs rhs' sameRight =>
      follows_pure ?_
    rw [Expression.unlined, Expression.unlined, same, sameRight]

theorem follows_expression (le : bound ≤ bound') :
    Follows Expression.unlined (expression bound) (expression bound') := by
  induction bound generalizing bound' with
  | zero => exact follows_exhausted
  | succ bound ih =>
    obtain ⟨bound', rfl⟩ : ∃ n, bound' = n + 1 := ⟨bound' - 1, by omega⟩
    have le := Nat.le_of_succ_le_succ le
    exact follows_comparison (ih le) le

end

/-! ### Statements -/

section

variable {bound bound' : Nat}

theorem follows_statement {inner inner' : Parser Expression}
    {nested nested' : Parser (List Statement)} (h : Follows Expression.unlined inner inner')
    (hNested : Follows Program.unlined nested nested') :
    Follows (Option.map Statement.unlined) (statement inner nested)
      (statement inner' nested') := by
  refine follows_current.bind fun token token' same => ?_
  obtain ⟨hKind, hLexeme⟩ := Token.eq_of_unlined same
  rw [← hKind]
  have hOther : Follows (Option.map Statement.unlined)
      (do
        unexpected
        let _ ← advance
        return none)
      (do
        unexpected
        let _ ← advance
        return none) :=
    follows_unexpected.bind fun _ _ _ => follows_advance.bind fun _ _ _ => follows_pure rfl
  cases token.kind with
  | identifier =>
    refine follows_advance.bind fun _ _ _ => (follows_consume _).bind fun _ _ _ =>
      h.bind fun value value' sameValue => follows_pure ?_
    simp only [Option.map_some, Statement.unlined, hLexeme, sameValue]
  | keyword word =>
    cases word with
    | kwIf =>
      refine follows_advance.bind fun _ _ _ => h.bind fun test test' sameTest =>
        (follows_consume _).bind fun _ _ _ => hNested.bind fun yes yes' sameYes =>
        follows_current.bind fun token token' sameToken => ?_
      rw [← (Token.eq_of_unlined sameToken).1]
      split
      · refine follows_advance.bind fun _ _ _ => hNested.bind fun no no' sameNo =>
          (follows_consume _).bind fun _ _ _ => follows_pure ?_
        simp only [Option.map_some, Statement.unlined, sameTest, sameYes, sameNo]
      · refine (follows_consume _).bind fun _ _ _ => follows_pure ?_
        simp only [Option.map_some, Statement.unlined, sameTest, sameYes]
    | kwRepeat =>
      refine follows_advance.bind fun _ _ _ => hNested.bind fun body body' sameBody =>
        (follows_consume _).bind fun _ _ _ => h.bind fun test test' sameTest => follows_pure ?_
      simp only [Option.map_some, Statement.unlined, sameTest, sameBody]
    | kwRead =>
      refine follows_advance.bind fun _ _ _ => follows_consumeName.bind fun name name' sameName =>
        follows_pure ?_
      rw [show name = name' from sameName]
      rfl
    | kwWrite =>
      refine follows_advance.bind fun _ _ _ => h.bind fun value value' sameValue =>
        follows_pure ?_
      simp only [Option.map_some, Statement.unlined, sameValue]
    | _ => exact hOther
  | _ => exact hOther

/-- A statement, if there is one, behind others. -/
theorem unlined_append_toList {done done' : List Statement} {next next' : Option Statement}
    (same : Program.unlined done = Program.unlined done')
    (sameNext : next.map Statement.unlined = next'.map Statement.unlined) :
    Program.unlined (done ++ next.toList) = Program.unlined (done' ++ next'.toList) := by
  have hList : ∀ next : Option Statement,
      Program.unlined next.toList = (next.map Statement.unlined).toList := by
    intro next
    cases next <;> rfl
  rw [Program.unlined_append, Program.unlined_append, same, hList, hList, sameNext]

theorem follows_more {one one' : Parser (Option Statement)}
    (h : Follows (Option.map Statement.unlined) one one') (le : bound ≤ bound')
    {done done' : List Statement} (same : Program.unlined done = Program.unlined done') :
    Follows Program.unlined (more one bound done) (more one' bound' done') := by
  induction bound generalizing bound' done done' with
  | zero => exact follows_exhausted
  | succ bound ih =>
    obtain ⟨bound', rfl⟩ : ∃ n, bound' = n + 1 := ⟨bound' - 1, by omega⟩
    refine follows_current.bind fun token token' sameToken => ?_
    rw [← (Token.eq_of_unlined sameToken).1]
    split
    · exact follows_pure same
    · exact (follows_consume _).bind fun _ _ _ => h.bind fun next next' sameNext =>
        ih (Nat.le_of_succ_le_succ le) (unlined_append_toList same sameNext)

theorem follows_sequence (le : bound ≤ bound') :
    Follows Program.unlined (sequence bound) (sequence bound') := by
  induction bound generalizing bound' with
  | zero => exact follows_exhausted
  | succ bound ih =>
    obtain ⟨bound', rfl⟩ : ∃ n, bound' = n + 1 := ⟨bound' - 1, by omega⟩
    have le := Nat.le_of_succ_le_succ le
    have hOne := follows_statement (follows_expression le) (ih le)
    exact hOne.bind fun first first' sameFirst =>
      follows_more hOne le (@unlined_append_toList [] [] first first' rfl sameFirst)

/-! ### Programs -/

theorem follows_program (le : bound ≤ bound') :
    Follows Program.unlined (program bound) (program bound') := by
  refine follows_advance.bind fun _ _ _ => (follows_sequence le).bind fun tree tree' same =>
    follows_current.bind fun token token' sameToken => ?_
  rw [← (Token.eq_of_unlined sameToken).1]
  split
  · exact Follows.bind (follows_report rfl nofun) fun _ _ _ => follows_pure same
  · exact follows_pure same

/-- **Parsing does not depend on lines.**  Two parsers that meet the same tokens up to lines give
the same program and the same diagnostics up to lines.  None of these is about types. -/
theorem follows_parse (le : bound ≤ bound') :
    Consumer.Follows
      (fun x y => Program.unlined x.1 = Program.unlined y.1 ∧
        Diagnostics.unlined x.2 = Diagnostics.unlined y.2 ∧ ∀ d ∈ x.2, d.concern ≠ .typing)
      (parse bound) (parse bound') := by
  have alike : Lookahead.Alike {} {} := ⟨rfl, rfl, fun _ hd => absurd hd (Array.not_mem_empty _)⟩
  refine (follows_program le {} {} alike).bind fun x y same => ?_
  exact .done ⟨same.1, same.2.diagnostics, same.2.untyped⟩

end

end Parser

end Tiny
