import Tiny.Proofs.Decimal
import Tiny.Proofs.Grammar
import Tiny.Proofs.Lookahead

/-!
# What the parser reads is derived

Whatever the tokens are, the parser comes to an end, and if it reported nothing on the way, then it
has read the tokens of a derivation and gives the tree of that derivation.  It goes on after a
report, so this is shown for every part of the parser from every place on, by `Reads`.

* `ReadsWithin`: a part of the parser reads, and passes a token, wherever few enough tokens are to
  come.  So a bound above the number of tokens is never used up.
* `reads_chain`: the loop over operands, for both kinds of signs.
* `reads_expression`, `reads_sequence`: the nesting, by induction over the bound.
-/

namespace Tiny.Parser

open Grammar

/-- A derivation of the tokens from `i` up to `j` denotes `x`. -/
def Denotes {δ τ : Type} (tokens : δ → List Token) (tree : δ → τ) (stream : Nat → Token) (i : Nat)
    (x : τ) (j : Nat) : Prop :=
  ∃ d, Spells stream i (tokens d) j ∧ tree d = x

/-! ### Signs and numbers -/

/-- The operators of a parser are those of a table of signs. -/
def Tabled (operator? : TokenKind → Option Operator) (table : List (TokenKind × Operator)) : Prop :=
  ∀ kind op, operator? kind = some op ↔ (kind, op) ∈ table

theorem tabled_products : Tabled factorOperator? products := by
  intro kind op
  cases kind <;> simp [factorOperator?, products, eq_comm]

theorem tabled_sums : Tabled termOperator? sums := by
  intro kind op
  cases kind <;> simp [termOperator?, sums, eq_comm]

theorem tabled_comparisons : Tabled comparisonOperator? comparisons := by
  intro kind op
  cases kind <;> simp [comparisonOperator?, comparisons, eq_comm]

section

variable {operator? : TokenKind → Option Operator} {table : List (TokenKind × Operator)}

theorem Tabled.eq_none (tabled : Tabled operator? table) {kind : TokenKind}
    (apart : Apart table kind) : operator? kind = none := by
  cases hOp : operator? kind with
  | none => rfl
  | some op => exact absurd (List.mem_map_of_mem ((tabled kind op).mp hOp)) apart

theorem Tabled.eq_op (tabled : Tabled operator? table) (sign : Sign table) :
    operator? sign.token.kind = some sign.op :=
  (tabled _ _).mpr sign.listed

end

theorem constant?_digits {token : Token} (hNil : token.lexeme.toList ≠ [])
    (h : ∀ c ∈ token.lexeme.toList, c.isDigit = true) :
    constant? token = if Nat.ofDigitChars 10 token.lexeme.toList 0 ≤ 2147483647
      then some (Int32.ofNat (Nat.ofDigitChars 10 token.lexeme.toList 0)) else none := by
  rw [constant?, Decimal.readWord, Decimal.readInt_digits hNil h,
    Decimal.readUp_digits h (by decide)]
  split <;> rfl

/-! ### What is read without a report is derived

The tokens to come bound the work: every round of a loop and every level of nesting passes one. -/

/-- The parser reads something, and passes a token, wherever fewer than `room` tokens are to come
before the end at `k`. -/
def ReadsWithin {α : Type} (stream : Nat → Token) (k room : Nat) (parser : Parser α)
    (D : Nat → α → Nat → Prop) : Prop :=
  ∀ i, k - i < room → Reads stream parser i (i + 1) (D i)

section

variable {stream : Nat → Token} {k bound : Nat} {inner : Parser Expression}

theorem reads_factor (ordinary : Ordinary stream k)
    (hInner : ReadsWithin stream k (bound - 1) inner (Denotes Exp.tokens Exp.tree stream)) :
    ReadsWithin stream k bound (factor inner) (Denotes Factor.tokens Factor.tree stream) := by
  intro i h
  refine reads_current_bind.mpr ?_
  split
  next hKind =>
    refine reads_advance_bind.mpr ?_
    obtain ⟨hNil, hDigits⟩ := ordinary.digits i hKind
    rw [constant?_digits hNil hDigits]
    by_cases fits : Nat.ofDigitChars 10 (stream i).lexeme.toList 0 ≤ 2147483647
    · rw [if_pos fits]
      exact reads_pure (Nat.le_refl _) ⟨.number ⟨⟨stream i, hKind⟩, fits⟩, ⟨rfl, rfl⟩, rfl⟩
    · rw [if_neg fits]
      exact (yields_report _).reads_bind (reads_pure (Nat.le_refl _) trivial)
  next hKind =>
    exact reads_advance_bind.mpr
      (reads_pure (Nat.le_refl _) ⟨.name ⟨stream i, hKind⟩, ⟨rfl, rfl⟩, rfl⟩)
  next hKind =>
    have hi := ordinary.lt_of_kind hKind (by decide)
    refine reads_advance_bind.mpr ((hInner (i + 1) (by omega)).bind fun e j hj => ?_)
    refine (reads_consume _).bind fun _ m hm => reads_pure (by omega) ?_
    rintro ⟨hRight, -, rfl⟩ ⟨d, hSpells, hTree⟩
    exact ⟨.parens ⟨stream i, hKind⟩ d ⟨stream j, hRight⟩,
      ⟨rfl, hSpells.append ⟨rfl, rfl⟩⟩, hTree⟩
  next =>
    exact reads_unexpected_bind (reads_advance_bind.mpr (reads_pure (Nat.le_refl _) trivial))

/-- A chain of operands, whatever they and their signs are.  `D` is what is known of an operand,
`T` what is to be shown of a chain behind `lhs`. -/
theorem reads_chain {operator? : TokenKind → Option Operator} {operand : Parser Expression}
    {D : Nat → Expression → Nat → Prop} {T : Expression → Nat → Expression → Nat → Prop}
    (ordinary : Ordinary stream k) (last : operator? .endOfFile = none)
    (hOperand : ReadsWithin stream k bound operand D) (stop : ∀ lhs i, T lhs i lhs i)
    (go : ∀ {lhs i op rhs j e m}, operator? (stream i).kind = some op → D (i + 1) rhs j →
      T (.binary op lhs rhs (stream i).line .unresolved) j e m → T lhs i e m)
    {n i : Nat} (hn : n ≤ bound) (h : k - i < n) (lhs : Expression) :
    Reads stream (chain operator? operand n lhs) i i (T lhs i) := by
  induction n generalizing lhs i with
  | zero => omega
  | succ n ih =>
    refine reads_current_bind.mpr ?_
    cases hOp : operator? (stream i).kind with
    | none => exact reads_pure (Nat.le_refl i) (stop lhs i)
    | some op =>
      have hi : i < k := ordinary.lt_of_kind rfl fun hKind => by
        rw [hKind, last] at hOp
        exact nomatch hOp
      refine reads_advance_bind.mpr ((hOperand (i + 1) (by omega)).bind fun rhs j hj => ?_)
      refine (ih (by omega) (by omega) (.binary op lhs rhs (stream i).line .unresolved)).imp
        (by omega) fun e m hT hRhs => go hOp hRhs hT

theorem reads_term (ordinary : Ordinary stream k)
    (hInner : ReadsWithin stream k (bound - 1) inner (Denotes Exp.tokens Exp.tree stream)) :
    ReadsWithin stream k bound (term bound inner) (Denotes Term.tokens Term.tree stream) := by
  intro i h
  have hFactor := reads_factor ordinary hInner
  refine (hFactor i h).bind fun lhs j hj => ?_
  have hChain := reads_chain ordinary (show factorOperator? .endOfFile = none from rfl) hFactor
    (fun lhs i => show Denotes Products.tokens (Products.tree lhs) stream i lhs i from
      ⟨.none, rfl, rfl⟩)
    (by
      rintro lhs i op _ j _ m hOp ⟨f, hFactor, rfl⟩ ⟨p, hRest, rfl⟩
      exact ⟨.more ⟨stream i, op, (tabled_products _ _).mp hOp⟩ f p,
        ⟨rfl, hFactor.append hRest⟩, rfl⟩)
    (Nat.le_refl bound) (show k - j < bound by omega) lhs
  refine hChain.imp hj ?_
  rintro _ m ⟨p, hRest, rfl⟩ ⟨f, hFirst, rfl⟩
  exact ⟨.mk f p, hFirst.append hRest, rfl⟩

theorem reads_sum (ordinary : Ordinary stream k)
    (hInner : ReadsWithin stream k (bound - 1) inner (Denotes Exp.tokens Exp.tree stream)) :
    ReadsWithin stream k bound (sum bound inner) (Denotes Simple.tokens Simple.tree stream) := by
  intro i h
  have hTerm := reads_term ordinary hInner
  refine (hTerm i h).bind fun lhs j hj => ?_
  have hChain := reads_chain ordinary (show termOperator? .endOfFile = none from rfl) hTerm
    (fun lhs i => show Denotes Sums.tokens (Sums.tree lhs) stream i lhs i from ⟨.none, rfl, rfl⟩)
    (by
      rintro lhs i op _ j _ m hOp ⟨t, hTerm, rfl⟩ ⟨s, hRest, rfl⟩
      exact ⟨.more ⟨stream i, op, (tabled_sums _ _).mp hOp⟩ t s,
        ⟨rfl, hTerm.append hRest⟩, rfl⟩)
    (Nat.le_refl bound) (show k - j < bound by omega) lhs
  refine hChain.imp hj ?_
  rintro _ m ⟨s, hRest, rfl⟩ ⟨t, hFirst, rfl⟩
  exact ⟨.mk t s, hFirst.append hRest, rfl⟩

theorem reads_comparison (ordinary : Ordinary stream k)
    (hInner : ReadsWithin stream k (bound - 1) inner (Denotes Exp.tokens Exp.tree stream)) :
    ReadsWithin stream k bound (comparison bound inner)
      (Denotes Exp.tokens Exp.tree stream) := by
  intro i h
  have hSum := reads_sum ordinary hInner
  refine (hSum i h).bind fun lhs j hj => reads_current_bind.mpr ?_
  cases hOp : comparisonOperator? (stream j).kind with
  | none =>
    refine reads_pure hj ?_
    rintro ⟨s, hOnly, rfl⟩
    exact ⟨.simple s, hOnly, rfl⟩
  | some op =>
    refine reads_advance_bind.mpr ((hSum (j + 1) (by omega)).bind fun rhs m hm => ?_)
    refine reads_pure (by omega) ?_
    rintro ⟨r, hRight, rfl⟩ ⟨l, hLeft, rfl⟩
    exact ⟨.comparison l ⟨stream j, op, (tabled_comparisons _ _).mp hOp⟩ r,
      hLeft.append ⟨rfl, hRight⟩, rfl⟩

end

theorem reads_expression {stream : Nat → Token} {k : Nat} (ordinary : Ordinary stream k)
    (bound : Nat) : ReadsWithin stream k (bound - 1) (expression bound)
      (Denotes Exp.tokens Exp.tree stream) := by
  induction bound with
  | zero =>
    intro i h
    omega
  | succ bound ih => exact reads_comparison ordinary ih

section

variable {stream : Nat → Token} {k bound : Nat}

theorem reads_statement {exp : Parser Expression} {seq : Parser (List Statement)}
    (ordinary : Ordinary stream k)
    (hExp : ReadsWithin stream k (bound - 1) exp (Denotes Exp.tokens Exp.tree stream))
    (hSeq : ReadsWithin stream k (bound - 1) seq (Denotes Sequence.tokens Sequence.tree stream)) :
    ReadsWithin stream k bound (statement exp seq)
      (Denotes Stmt.tokens (fun d => some d.tree) stream) := by
  intro i h
  refine reads_current_bind.mpr ?_
  split
  next hKind =>
    have hi := ordinary.lt_of_kind hKind (by decide)
    refine reads_advance_bind.mpr ((hExp (i + 1) (by omega)).bind fun test j hj => ?_)
    refine (reads_consume _).bind fun _ j' hj' => ?_
    refine (hSeq j' (by omega)).bind fun yes m hm => reads_current_bind.mpr ?_
    by_cases hElse : (stream m).kind = .keyword .kwElse
    · rw [if_pos hElse]
      refine reads_advance_bind.mpr ((hSeq (m + 1) (by omega)).bind fun no n hn => ?_)
      refine (reads_consume _).bind fun _ n' hn' => reads_pure (by omega) ?_
      rintro ⟨hEnd, -, rfl⟩ ⟨dNo, hNo, rfl⟩ ⟨dYes, hYes, rfl⟩ ⟨hThen, -, rfl⟩ ⟨dTest, hTest, rfl⟩
      exact ⟨.ifElse ⟨stream i, hKind⟩ dTest ⟨stream j, hThen⟩ dYes ⟨stream m, hElse⟩ dNo
        ⟨stream n, hEnd⟩, ⟨rfl, hTest.append ⟨rfl, hYes.append ⟨rfl, hNo.append ⟨rfl, rfl⟩⟩⟩⟩, rfl⟩
    · rw [if_neg hElse]
      refine (reads_consume _).bind fun _ n hn => reads_pure (by omega) ?_
      rintro ⟨hEnd, -, rfl⟩ ⟨dYes, hYes, rfl⟩ ⟨hThen, -, rfl⟩ ⟨dTest, hTest, rfl⟩
      exact ⟨.ifThen ⟨stream i, hKind⟩ dTest ⟨stream j, hThen⟩ dYes ⟨stream m, hEnd⟩,
        ⟨rfl, hTest.append ⟨rfl, hYes.append ⟨rfl, rfl⟩⟩⟩, rfl⟩
  next hKind =>
    have hi := ordinary.lt_of_kind hKind (by decide)
    refine reads_advance_bind.mpr ((hSeq (i + 1) (by omega)).bind fun body j hj => ?_)
    refine (reads_consume _).bind fun _ j' hj' => ?_
    refine (hExp j' (by omega)).bind fun test m hm => reads_pure (by omega) ?_
    rintro ⟨dTest, hTest, rfl⟩ ⟨hUntil, -, rfl⟩ ⟨dBody, hBody, rfl⟩
    exact ⟨.loop ⟨stream i, hKind⟩ dBody ⟨stream j, hUntil⟩ dTest,
      ⟨rfl, hBody.append ⟨rfl, hTest⟩⟩, rfl⟩
  next hKind =>
    have hi := ordinary.lt_of_kind hKind (by decide)
    refine reads_advance_bind.mpr ((reads_consume _).bind fun _ j hj => ?_)
    refine (hExp j (by omega)).bind fun value m hm => reads_pure (by omega) ?_
    rintro ⟨dValue, hValue, rfl⟩ ⟨hSign, -, rfl⟩
    exact ⟨.assign ⟨stream i, hKind⟩ ⟨stream (i + 1), hSign⟩ dValue, ⟨rfl, rfl, hValue⟩, rfl⟩
  next hKind =>
    refine reads_advance_bind.mpr (reads_consumeName.bind fun name j hj => reads_pure hj ?_)
    rintro ⟨hName, rfl, rfl⟩
    exact ⟨.read ⟨stream i, hKind⟩ ⟨stream (i + 1), hName⟩, ⟨rfl, rfl, rfl⟩, rfl⟩
  next hKind =>
    have hi := ordinary.lt_of_kind hKind (by decide)
    refine reads_advance_bind.mpr ((hExp (i + 1) (by omega)).bind fun value j hj => ?_)
    refine reads_pure (by omega) ?_
    rintro ⟨dValue, hValue, rfl⟩
    exact ⟨.write ⟨stream i, hKind⟩ dValue, ⟨rfl, hValue⟩, rfl⟩
  next =>
    exact reads_unexpected_bind (reads_advance_bind.mpr (reads_pure (Nat.le_refl _) trivial))

theorem reads_more {one : Parser (Option Statement)} (ordinary : Ordinary stream k)
    (hOne : ReadsWithin stream k bound one (Denotes Stmt.tokens (fun d => some d.tree) stream))
    {n i : Nat} (hn : n ≤ bound) (h : k - i < n) (done : List Statement) :
    Reads stream (more one n done) i i
      (Denotes Rest.tokens (fun d => done ++ d.tree) stream i) := by
  induction n generalizing done i with
  | zero => omega
  | succ n ih =>
    refine reads_current_bind.mpr ?_
    by_cases hEnds : endsSequence (stream i).kind = true
    · rw [if_pos hEnds]
      exact reads_pure (Nat.le_refl i) ⟨.none, rfl, List.append_nil done⟩
    · rw [if_neg hEnds]
      have hi : i < k := ordinary.lt_of_kind rfl fun hKind => hEnds (by rw [hKind]; rfl)
      refine (reads_consume _).bind fun _ j hj => ?_
      refine (hOne j (by omega)).bind fun next m hm => ?_
      refine (ih (by omega) (by omega) (done ++ next.toList)).imp (by omega) ?_
      rintro _ l ⟨dRest, hRest, rfl⟩ ⟨dNext, hNext, rfl⟩ ⟨hSeparator, -, rfl⟩
      refine ⟨.more ⟨stream i, hSeparator⟩ dNext dRest, ⟨rfl, hNext.append hRest⟩, ?_⟩
      simp [Rest.tree]

theorem reads_sequence (ordinary : Ordinary stream k) (bound : Nat) :
    ReadsWithin stream k (bound - 1) (sequence bound)
      (Denotes Sequence.tokens Sequence.tree stream) := by
  induction bound with
  | zero =>
    intro i h
    omega
  | succ bound ih =>
    intro i h
    have hOne := reads_statement ordinary (reads_expression ordinary bound) ih
    refine (hOne i h).bind fun first j hj => ?_
    refine (reads_more ordinary hOne (Nat.le_refl bound) (by omega) first.toList).imp hj ?_
    rintro _ m ⟨dRest, hRest, rfl⟩ ⟨dFirst, hFirst, rfl⟩
    exact ⟨.mk dFirst dRest, hFirst.append hRest, rfl⟩

end

end Tiny.Parser
