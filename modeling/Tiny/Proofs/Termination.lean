import Tiny.Proofs.Reporting

/-!
# Parsing comes to its end

The parser passes over tokens that do not fit, and at the end of the source it even goes on asking
for tokens.  But it does not go on for long: an expression passes the end at most once, and a
statement at most once for each token that it was given, and once more.

* `Lands`: where a part of the parser stops, if it does.
* `lands_expression`, `lands_sequence`: how far the parts of the parser go beyond the end.
* `Extends`: a part of the parser gives the same as another one, unless that gives up;
  `extends_parse`: so does the parser with a larger bound.
* `Scanner.program_ends`: for every source the parser comes to its end, having asked for at most
  twice as many tokens as there are, with the end of the source counted as one.
-/

namespace Tiny

namespace Parser

/-! ### Where the parser stops -/

/-- The parser, looking at token `i`, stops looking at a token whose place satisfies `P`, if it
stops at all. -/
def Lands {α : Type} (stream : Nat → Token) (parser : Parser α) (i : Nat) (P : Nat → Prop) :
    Prop :=
  ∀ found x state m,
    Consumer.serve stream (parser ⟨stream i, found⟩) (i + 1) = .ok ((x, state), m) →
    ∃ j, m = j + 1 ∧ state.current = stream j ∧ P j

section

variable {α β : Type} {stream : Nat → Token} {i : Nat} {P Q : Nat → Prop}

theorem lands_pure (x : α) (h : P i) : Lands stream (pure x) i P := by
  intro found y state m hServe
  obtain ⟨hResult, rfl⟩ := Prod.mk.inj (Except.ok.inj hServe)
  obtain ⟨rfl, rfl⟩ := Prod.mk.inj hResult
  exact ⟨i, rfl, rfl, h⟩

theorem Lands.bind {parser : Parser α} {f : α → Parser β} (h : Lands stream parser i P)
    (hf : ∀ x j, P j → Lands stream (f x) j Q) : Lands stream (parser >>= f) i Q := by
  intro found y state m hServe
  obtain ⟨⟨x, middle⟩, _, hFirst, hRest⟩ := Consumer.exists_of_serve_bind hServe
  obtain ⟨j, rfl, hCurrent, hj⟩ := h found x middle _ hFirst
  obtain ⟨current, diagnostics⟩ := middle
  obtain rfl : current = stream j := hCurrent
  exact hf x j hj diagnostics y state m hRest

theorem Lands.imp {parser : Parser α} (h : Lands stream parser i P) (hPQ : ∀ j, P j → Q j) :
    Lands stream parser i Q := by
  intro found x state m hServe
  obtain ⟨j, hm, hCurrent, hj⟩ := h found x state m hServe
  exact ⟨j, hm, hCurrent, hPQ j hj⟩

theorem lands_current_bind {f : Token → Parser α} (h : Lands stream (f (stream i)) i P) :
    Lands stream (current >>= f) i P :=
  h

theorem lands_advance_bind {f : Token → Parser α} (h : Lands stream (f (stream i)) (i + 1) P) :
    Lands stream (advance >>= f) i P :=
  fun found x state m hServe => h found x state m hServe

theorem lands_exhausted : Lands stream (exhausted : Parser α) i P :=
  fun _ _ _ _ hServe => nomatch hServe

theorem lands_report (diagnostic : Diagnostic) : Lands stream (report diagnostic) i (· = i) := by
  intro found x state m hServe
  obtain ⟨hResult, rfl⟩ := Prod.mk.inj (Except.ok.inj hServe)
  obtain ⟨rfl, rfl⟩ := Prod.mk.inj hResult
  exact ⟨i, rfl, rfl, rfl⟩

theorem lands_unexpected : Lands stream unexpected i (· = i) := by
  refine lands_current_bind ?_
  split
  · exact lands_report _
  · exact lands_report _

/-- A token that must come is passed, or the parser stays. -/
theorem lands_consume (kind : TokenKind) :
    Lands stream (consume kind) i fun j => j = i ∨ (stream i).kind = kind ∧ j = i + 1 := by
  refine lands_current_bind ?_
  by_cases h : (stream i).kind = kind
  · rw [if_pos h]
    exact lands_advance_bind (lands_pure _ (.inr ⟨h, rfl⟩))
  · rw [if_neg h]
    refine lands_unexpected.bind fun _ j hj => lands_pure _ (.inl hj)

theorem lands_consumeName :
    Lands stream consumeName i fun j => j = i ∨ (stream i).kind = .identifier ∧ j = i + 1 :=
  (lands_consume .identifier).bind fun _ _ hj => lands_pure _ hj

end

/-! ### Expressions -/

/-- The places where an expression that starts at `i` can stop, if the source ends at `k`: it passes
the end at most once. -/
def Short (k i j : Nat) : Prop :=
  i ≤ j ∧ j ≤ max i k + 1

/-- The places where a sequence of statements that starts at `i` can stop, if the source ends at
`k`: it passes the end at most once for every token that was left, and once more. -/
def Long (k i j : Nat) : Prop :=
  i ≤ j ∧ j ≤ max i k + 1 + (k - i)

section

variable {stream : Nat → Token} {k bound : Nat} (ordinary : Ordinary stream k)

include ordinary

/-- A token that must come, if it is not the end. -/
theorem lands_consume_short {kind : TokenKind} (hKind : kind ≠ .endOfFile) (i : Nat) :
    Lands stream (consume kind) i fun j => i ≤ j ∧ j ≤ max i k := by
  refine (lands_consume kind).imp fun j hj => ?_
  rcases hj with rfl | ⟨h, rfl⟩
  · omega
  · have := ordinary.lt_of_kind h hKind
    omega

section

variable {inner : Parser Expression} (hInner : ∀ i, Lands stream inner i (Short k i))

include hInner

theorem lands_factor (i : Nat) : Lands stream (factor inner) i (Short k i) := by
  refine lands_current_bind ?_
  split
  · refine lands_advance_bind ?_
    cases constant? (stream i) with
    | some value => exact lands_pure _ ⟨by omega, by omega⟩
    | none =>
      refine (lands_report _).bind fun _ j hj => lands_pure _ ?_
      subst hj
      exact ⟨by omega, by omega⟩
  · exact lands_advance_bind (lands_pure _ ⟨by omega, by omega⟩)
  next hKind =>
    have hi := ordinary.lt_of_kind hKind (by decide)
    refine lands_advance_bind ((hInner (i + 1)).bind fun e j hj => ?_)
    refine (lands_consume_short ordinary (by decide) j).bind fun _ m hm => lands_pure _ ?_
    unfold Short at *
    omega
  · refine lands_unexpected.bind fun _ j hj => lands_advance_bind (lands_pure _ ?_)
    subst hj
    exact ⟨by omega, by omega⟩

omit hInner in
theorem lands_chain {operator? : TokenKind → Option Operator} {operand : Parser Expression}
    (last : operator? .endOfFile = none)
    (hOperand : ∀ i, Lands stream operand i (Short k i)) (bound : Nat) (lhs : Expression)
    (i : Nat) :
    Lands stream (chain operator? operand bound lhs) i fun j => i ≤ j ∧ j ≤ max i (k + 1) := by
  induction bound generalizing lhs i with
  | zero => exact lands_exhausted
  | succ bound ih =>
    refine lands_current_bind ?_
    cases hOp : operator? (stream i).kind with
    | none => exact lands_pure lhs (by omega)
    | some op =>
      have hi : i < k := ordinary.lt_of_kind rfl fun hKind => by
        rw [hKind, last] at hOp
        exact nomatch hOp
      refine lands_advance_bind ((hOperand (i + 1)).bind fun rhs j hj => ?_)
      refine (ih _ j).imp fun m hm => ?_
      unfold Short at hj
      omega

theorem lands_term (bound i : Nat) : Lands stream (term bound inner) i (Short k i) := by
  have hFactor := lands_factor ordinary hInner
  refine (hFactor i).bind fun lhs j hj => ?_
  refine (lands_chain ordinary rfl hFactor bound lhs j).imp fun m hm => ?_
  unfold Short at *
  omega

theorem lands_sum (bound i : Nat) : Lands stream (sum bound inner) i (Short k i) := by
  have hTerm := lands_term ordinary hInner bound
  refine (hTerm i).bind fun lhs j hj => ?_
  refine (lands_chain ordinary rfl hTerm bound lhs j).imp fun m hm => ?_
  unfold Short at *
  omega

theorem lands_comparison (bound i : Nat) :
    Lands stream (comparison bound inner) i (Short k i) := by
  have hSum := lands_sum ordinary hInner bound
  refine (hSum i).bind fun lhs j hj => lands_current_bind ?_
  cases hOp : comparisonOperator? (stream j).kind with
  | none => exact lands_pure lhs hj
  | some op =>
    have hk : j < k := ordinary.lt_of_kind rfl fun hKind => by
      rw [hKind] at hOp
      exact nomatch hOp
    refine lands_advance_bind ((hSum (j + 1)).bind fun rhs m hm => lands_pure _ ?_)
    unfold Short at *
    omega

end

theorem lands_expression (bound i : Nat) : Lands stream (expression bound) i (Short k i) := by
  induction bound generalizing i with
  | zero => exact lands_exhausted
  | succ bound ih => exact lands_comparison ordinary ih bound i

/-! ### Statements -/

theorem lands_statement {inner : Parser Expression} {nested : Parser (List Statement)}
    (hInner : ∀ i, Lands stream inner i (Short k i))
    (hNested : ∀ i, Lands stream nested i (Long k i)) (i : Nat) :
    Lands stream (statement inner nested) i (Long k i) := by
  have hConsume := fun {kind : TokenKind} (hKind : kind ≠ .endOfFile) (j : Nat) =>
    lands_consume_short ordinary hKind j
  refine lands_current_bind ?_
  split
  next hKind =>
    have hi := ordinary.lt_of_kind hKind (by decide)
    refine lands_advance_bind ((hInner (i + 1)).bind fun test a ha => ?_)
    refine (hConsume (by decide) a).bind fun _ b hb => ?_
    refine (hNested b).bind fun yes c hc => lands_current_bind ?_
    by_cases hElse : (stream c).kind = .keyword .kwElse
    · rw [if_pos hElse]
      have hck := ordinary.lt_of_kind hElse (by decide)
      refine lands_advance_bind ((hNested (c + 1)).bind fun no d hd => ?_)
      refine (hConsume (by decide) d).bind fun _ e he => lands_pure _ ?_
      unfold Short at ha
      unfold Long at *
      omega
    · rw [if_neg hElse]
      refine (hConsume (by decide) c).bind fun _ d hd => lands_pure _ ?_
      unfold Short at ha
      unfold Long at *
      omega
  next hKind =>
    have hi := ordinary.lt_of_kind hKind (by decide)
    refine lands_advance_bind ((hNested (i + 1)).bind fun body a ha => ?_)
    refine (hConsume (by decide) a).bind fun _ b hb => ?_
    refine (hInner b).bind fun test c hc => lands_pure _ ?_
    unfold Short at hc
    unfold Long at *
    omega
  next hKind =>
    have hi := ordinary.lt_of_kind hKind (by decide)
    refine lands_advance_bind ((hConsume (by decide) (i + 1)).bind fun _ a ha => ?_)
    refine (hInner a).bind fun value b hb => lands_pure _ ?_
    unfold Short at hb
    unfold Long
    omega
  next hKind =>
    have hi := ordinary.lt_of_kind hKind (by decide)
    refine lands_advance_bind (lands_consumeName.bind fun name a ha => lands_pure _ ?_)
    unfold Long
    omega
  next hKind =>
    have hi := ordinary.lt_of_kind hKind (by decide)
    refine lands_advance_bind ((hInner (i + 1)).bind fun value a ha => lands_pure _ ?_)
    unfold Short at ha
    unfold Long
    omega
  next =>
    refine lands_unexpected.bind fun _ a ha => lands_advance_bind (lands_pure _ ?_)
    unfold Long
    omega

theorem lands_more {one : Parser (Option Statement)}
    (hOne : ∀ i, Lands stream one i (Long k i)) (bound : Nat) (done : List Statement) (i : Nat) :
    Lands stream (more one bound done) i fun j => i ≤ j ∧ j ≤ max i (2 * k + 1 - i) := by
  induction bound generalizing done i with
  | zero => exact lands_exhausted
  | succ bound ih =>
    refine lands_current_bind ?_
    by_cases hEnds : endsSequence (stream i).kind = true
    · rw [if_pos hEnds]
      exact lands_pure done (by omega)
    · rw [if_neg hEnds]
      have hi : i < k := ordinary.lt_of_kind rfl fun hKind => hEnds (by rw [hKind]; rfl)
      refine (lands_consume_short ordinary (by decide) i).bind fun _ a ha => ?_
      refine (hOne a).bind fun next b hb => (ih _ b).imp fun c hc => ?_
      unfold Long at hb
      omega

theorem lands_sequence (bound i : Nat) : Lands stream (sequence bound) i (Long k i) := by
  induction bound generalizing i with
  | zero => exact lands_exhausted
  | succ bound ih =>
    have hOne := lands_statement ordinary (lands_expression ordinary bound) ih
    refine (hOne i).bind fun first a ha => (lands_more ordinary hOne bound _ a).imp fun b hb => ?_
    unfold Long at *
    omega

end

/-! ### Larger bounds -/

/-- Where the first parser comes to an end, the second one gives the same. -/
def Extends {α : Type} (p q : Parser α) : Prop :=
  ∀ state stream i result, Consumer.serve stream (p state) i = .ok result →
    Consumer.serve stream (q state) i = .ok result

section

variable {α β : Type} {bound bound' : Nat}

theorem extends_refl (p : Parser α) : Extends p p :=
  fun _ _ _ _ h => h

theorem extends_exhausted (q : Parser α) : Extends exhausted q :=
  fun _ _ _ _ h => nomatch h

theorem Extends.bind {p q : Parser α} {f g : α → Parser β} (h : Extends p q)
    (hf : ∀ x, Extends (f x) (g x)) : Extends (p >>= f) (q >>= g) := by
  intro state stream i result hServe
  obtain ⟨⟨x, middle⟩, j, hFirst, hRest⟩ := Consumer.exists_of_serve_bind hServe
  refine (Consumer.serve_bind (h state stream i _ hFirst)).trans ?_
  exact hf x middle stream j result hRest

/-- Two parsers that start with the same work. -/
theorem extends_bind_right (p : Parser α) {f g : α → Parser β} (hf : ∀ x, Extends (f x) (g x)) :
    Extends (p >>= f) (p >>= g) :=
  (extends_refl p).bind hf

section

variable {inner inner' : Parser Expression}

theorem extends_factor (h : Extends inner inner') : Extends (factor inner) (factor inner') := by
  refine extends_bind_right _ fun token => ?_
  cases token.kind with
  | leftParen =>
    exact extends_bind_right _ fun _ => h.bind fun _ => extends_refl _
  | _ => exact extends_refl _

theorem extends_chain {operator? : TokenKind → Option Operator}
    {operand operand' : Parser Expression} (h : Extends operand operand') (le : bound ≤ bound')
    (lhs : Expression) :
    Extends (chain operator? operand bound lhs) (chain operator? operand' bound' lhs) := by
  induction bound generalizing bound' lhs with
  | zero => exact extends_exhausted _
  | succ bound ih =>
    obtain ⟨bound', rfl⟩ : ∃ n, bound' = n + 1 := ⟨bound' - 1, by omega⟩
    refine extends_bind_right _ fun token => ?_
    cases operator? token.kind with
    | none => exact extends_refl _
    | some op =>
      refine extends_bind_right _ fun _ => h.bind fun rhs => ?_
      exact ih (Nat.le_of_succ_le_succ le) _

theorem extends_term (h : Extends inner inner') (le : bound ≤ bound') :
    Extends (term bound inner) (term bound' inner') :=
  (extends_factor h).bind fun lhs => extends_chain (extends_factor h) le lhs

theorem extends_sum (h : Extends inner inner') (le : bound ≤ bound') :
    Extends (sum bound inner) (sum bound' inner') :=
  (extends_term h le).bind fun lhs => extends_chain (extends_term h le) le lhs

theorem extends_comparison (h : Extends inner inner') (le : bound ≤ bound') :
    Extends (comparison bound inner) (comparison bound' inner') := by
  refine (extends_sum h le).bind fun lhs => extends_bind_right _ fun token => ?_
  cases comparisonOperator? token.kind with
  | none => exact extends_refl _
  | some op => exact extends_bind_right _ fun _ => (extends_sum h le).bind fun _ => extends_refl _

end

theorem extends_expression (le : bound ≤ bound') :
    Extends (expression bound) (expression bound') := by
  induction bound generalizing bound' with
  | zero => exact extends_exhausted _
  | succ bound ih =>
    obtain ⟨bound', rfl⟩ : ∃ n, bound' = n + 1 := ⟨bound' - 1, by omega⟩
    have le := Nat.le_of_succ_le_succ le
    exact extends_comparison (ih le) le

theorem extends_statement {inner inner' : Parser Expression}
    {nested nested' : Parser (List Statement)} (h : Extends inner inner')
    (hNested : Extends nested nested') :
    Extends (statement inner nested) (statement inner' nested') := by
  refine extends_bind_right _ fun token => ?_
  cases token.kind with
  | identifier =>
    exact extends_bind_right _ fun _ => extends_bind_right _ fun _ => h.bind fun _ =>
      extends_refl _
  | keyword word =>
    cases word with
    | kwIf =>
      refine extends_bind_right _ fun _ => h.bind fun test => extends_bind_right _ fun _ =>
        hNested.bind fun yes => extends_bind_right _ fun token => ?_
      by_cases hElse : token.kind = .keyword .kwElse
      · simp only [if_pos hElse]
        exact extends_bind_right _ fun _ => hNested.bind fun no => extends_refl _
      · simp only [if_neg hElse]
        exact extends_refl _
    | kwRepeat =>
      exact extends_bind_right _ fun _ => hNested.bind fun body => extends_bind_right _ fun _ =>
        h.bind fun test => extends_refl _
    | kwWrite => exact extends_bind_right _ fun _ => h.bind fun value => extends_refl _
    | _ => exact extends_refl _
  | _ => exact extends_refl _

theorem extends_more {one one' : Parser (Option Statement)} (h : Extends one one')
    (le : bound ≤ bound') (done : List Statement) :
    Extends (more one bound done) (more one' bound' done) := by
  induction bound generalizing bound' done with
  | zero => exact extends_exhausted _
  | succ bound ih =>
    obtain ⟨bound', rfl⟩ : ∃ n, bound' = n + 1 := ⟨bound' - 1, by omega⟩
    refine extends_bind_right _ fun token => ?_
    by_cases hEnds : endsSequence token.kind = true
    · simp only [if_pos hEnds]
      exact extends_refl _
    · simp only [if_neg hEnds]
      refine extends_bind_right _ fun _ => h.bind fun next => ?_
      exact ih (Nat.le_of_succ_le_succ le) _

theorem extends_sequence (le : bound ≤ bound') :
    Extends (sequence bound) (sequence bound') := by
  induction bound generalizing bound' with
  | zero => exact extends_exhausted _
  | succ bound ih =>
    obtain ⟨bound', rfl⟩ : ∃ n, bound' = n + 1 := ⟨bound' - 1, by omega⟩
    have le := Nat.le_of_succ_le_succ le
    have hOne := extends_statement (extends_expression le) (ih le)
    exact hOne.bind fun first => extends_more hOne le _

/-- **A larger bound changes nothing**, once the parser comes to its end. -/
theorem extends_parse (le : bound ≤ bound') {stream : Nat → Token} {i : Nat}
    {result : (Program × Diagnostics) × Nat}
    (h : Consumer.serve stream (parse bound) i = .ok result) :
    Consumer.serve stream (parse bound') i = .ok result := by
  obtain ⟨x, j, hFirst, hRest⟩ := Consumer.exists_of_serve_bind h
  have hProgram : Extends (program bound) (program bound') :=
    extends_bind_right _ fun _ => (extends_sequence le).bind fun _ => extends_refl _
  exact (Consumer.serve_bind (hProgram {} stream i _ hFirst)).trans hRest

end

/-! ### Programs -/

section

variable {stream : Nat → Token} {k bound : Nat}

theorem lands_programHere (ordinary : Ordinary stream k) (bound i : Nat) :
    Lands stream (programHere bound) i (Long k i) := by
  refine (lands_sequence ordinary bound i).bind fun tree j hj => lands_current_bind ?_
  split
  · refine (lands_report _).bind fun _ m hm => lands_pure tree ?_
    subst hm
    exact hj
  · exact lands_pure tree hj

/-- The parser comes to its end, the same for all bounds that are large enough. -/
theorem exists_serve_parse (ordinary : Ordinary stream k) :
    ∃ tree found asked, asked ≤ 2 * (k + 1) ∧ ∀ bound, k + 1 < bound →
      Consumer.serve stream (parse bound) 0 = .ok ((tree, found), asked) := by
  have hBound : k + 1 < k + 2 := Nat.lt_succ_self _
  obtain ⟨tree, j, found, hYields, -, -⟩ := reads_programHere ordinary hBound
  obtain ⟨j', hj', -, -, hLong⟩ := lands_programHere ordinary (k + 2) 0 #[] tree _ _ (hYields #[])
  refine ⟨tree, found, j + 1, by omega, fun bound h => ?_⟩
  exact extends_parse h (serve_parse hYields)

/-- One round of the loop over the statements of a sequence leads from token `i` to token `j`: the
loop at `i` does what it does at `j`, after some statement and some reports. -/
def Rounds (stream : Nat → Token) (bound i j : Nat) : Prop :=
  ∃ next new, ∀ n done tree m rest,
    Yields stream (more (statement (expression bound) (sequence bound)) n
      (done ++ Option.toList next)) j tree m rest →
    Yields stream (more (statement (expression bound) (sequence bound)) (n + 1) done) i tree m
      (new ++ rest)

/-- **Every round passes a token.** -/
theorem exists_rounds (ordinary : Ordinary stream k) {i : Nat} (h : k - i < bound)
    (goesOn : endsSequence (stream i).kind = false) :
    (stream i).kind ≠ .endOfFile ∧ ∃ j, i < j ∧ Rounds stream bound i j := by
  have hKind : (stream i).kind ≠ .endOfFile := by
    intro hKind
    rw [hKind] at goesOn
    exact nomatch goesOn
  have hOne := reads_statement ordinary (reads_expression ordinary bound)
    (reads_sequence ordinary bound)
  obtain ⟨passed, a, new, hConsume, ha, -⟩ := @reads_consume stream i .semicolon
  obtain ⟨next, b, more, hNext, hb, -⟩ := hOne a (by omega)
  refine ⟨hKind, b, by omega, next, new ++ more, fun n done tree m rest hRest => ?_⟩
  refine yields_current_bind.mpr ?_
  rw [if_neg (by rw [goesOn]; decide), Array.append_assoc]
  exact hConsume.bind (hNext.bind hRest)

end

end Parser

/-- **Parsing always ends.**  For every source, the parser gives the same result with every bound
that exceeds the number of tokens by two, and has then asked for at most `2 * (k + 1)` tokens, if
there are `k` before the end; the end counts as often as it is asked for.  Every round of the loop
over the statements of a sequence passes a token that is not the end. -/
theorem Scanner.program_ends (bytes : List UInt8) (written : ByteArray) (options : Options) :
    let scanner : Scanner := { feed := .ofBytes bytes, listing := { written }, options }
    ∃ tokens last drained tree found asked,
      Scanner.drain scanner.tokenBound scanner = .ok (tokens ++ [last]) drained ∧
      last.kind = .endOfFile ∧ (∀ token ∈ tokens, token.kind ≠ .endOfFile) ∧
      Scanner.program scanner = .ok (tree, found) (scanner.later asked) ∧
      (∀ bound, tokens.length + 1 < bound →
        Consumer.serve scanner.upcoming (Parser.parse bound) 0 = .ok ((tree, found), asked)) ∧
      asked ≤ 2 * (tokens.length + 1) ∧
      ∀ bound i, tokens.length - i < bound →
        Parser.endsSequence (scanner.upcoming i).kind = false →
        (scanner.upcoming i).kind ≠ .endOfFile ∧
          ∃ j, i < j ∧ Parser.Rounds scanner.upcoming bound i j := by
  intro scanner
  have quiet : scanner.Quiet := ⟨Feed.unfailing_ofBytes bytes, rfl⟩
  obtain ⟨tokens, hBound, ordinary, -, known, hDrain⟩ := exists_tokens quiet
  obtain ⟨tree, found, asked, hAsked, hServe⟩ := Parser.exists_serve_parse ordinary
  have hParse := hServe (scanner.tokenBound + 1) (Nat.succ_lt_succ hBound)
  refine ⟨tokens, scanner.upcoming tokens.length, _, tree, found, asked, hDrain,
    (ordinary.ends _).mpr (Nat.le_refl _), known, runOn_of_serve quiet hParse, hServe, hAsked, ?_⟩
  intro bound i h goesOn
  exact Parser.exists_rounds ordinary h goesOn

end Tiny
