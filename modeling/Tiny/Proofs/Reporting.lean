import Tiny.Proofs.Recognition

/-!
# What the parser reports

The parser goes on after a report, and may report a token twice or pass it over.  But whatever it
does is one of two things: it moves to the next token, or it reports something about a token at
which it looks.  So what is kept by these two is kept by the parser as a whole.

* `Complaint`: a diagnostic about a token, on its line.
* `Invariant`: what is kept by moving on and by a complaint about the token at hand.
* `Invariant.parse`: it is kept from the first token to the end of parsing.
* `lexical_of_parse`: a lexical diagnostic names a token that is unknown.
-/

namespace Tiny

/-- Diagnostics about a token.  Only an unknown token can be a lexical error. -/
inductive Complaint (token : Token) : Diagnostic → Prop
  | lexical (unknown : token.kind = .unknown) : Complaint token ⟨.lexical, token.line, token.lexeme⟩
  | grammar (text : String) : Complaint token ⟨.grammar, token.line, text⟩

namespace Consumer

variable {α β : Type}

/-- What is served after a bind was served in two parts. -/
theorem exists_of_serve_bind {stream : Nat → Token} {consumer : Consumer α}
    {f : α → Consumer β} {y : β} {i k : Nat}
    (h : serve stream (consumer >>= f) i = .ok (y, k)) :
    ∃ x j, serve stream consumer i = .ok (x, j) ∧ serve stream (f x) j = .ok (y, k) := by
  induction consumer generalizing i with
  | done result => exact ⟨result, i, rfl, h⟩
  | ask next ih => exact ih _ h
  | fail fault => exact nomatch h

end Consumer

namespace Parser

/-- What holds of the token that the parser looks at and of what it has reported, and goes on to
hold when the parser moves on or complains about that token. -/
structure Invariant (stream : Nat → Token) (I : Nat → Diagnostics → Prop) : Prop where
  pass : ∀ {i found}, I i found → I (i + 1) found
  report : ∀ {i found diagnostic}, I i found → Complaint (stream i) diagnostic →
    I i (found.push diagnostic)

/-- From token `i` on, the parser comes to a place where `I` holds, if it held before. -/
def Keeps {α : Type} (stream : Nat → Token) (I : Nat → Diagnostics → Prop) (parser : Parser α)
    (i : Nat) : Prop :=
  ∀ found x state j, I i found →
    Consumer.serve stream (parser ⟨stream i, found⟩) (i + 1) = .ok ((x, state), j) →
    ∃ k, j = k + 1 ∧ state.current = stream k ∧ I k state.diagnostics

section

variable {α β : Type} {stream : Nat → Token} {I : Nat → Diagnostics → Prop} {i : Nat}

theorem keeps_pure (x : α) : Keeps stream I (pure x) i := by
  intro found y state j held h
  obtain ⟨hResult, rfl⟩ := Prod.mk.inj (Except.ok.inj h)
  obtain ⟨rfl, rfl⟩ := Prod.mk.inj hResult
  exact ⟨i, rfl, rfl, held⟩

theorem Keeps.bind {parser : Parser α} {f : α → Parser β} (h : Keeps stream I parser i)
    (hf : ∀ x k, Keeps stream I (f x) k) : Keeps stream I (parser >>= f) i := by
  intro found y state j held hServe
  obtain ⟨⟨x, middle⟩, _, hFirst, hRest⟩ := Consumer.exists_of_serve_bind hServe
  obtain ⟨k, rfl, hCurrent, held⟩ := h found x middle _ held hFirst
  obtain ⟨current, diagnostics⟩ := middle
  obtain rfl : current = stream k := hCurrent
  exact hf x k diagnostics y state j held hRest

theorem keeps_current_bind {f : Token → Parser α} (h : Keeps stream I (f (stream i)) i) :
    Keeps stream I (current >>= f) i :=
  h

theorem keeps_exhausted : Keeps stream I (exhausted : Parser α) i :=
  fun _ _ _ _ _ h => nomatch h

variable (inv : Invariant stream I)

include inv

theorem keeps_advance_bind {f : Token → Parser α} (h : Keeps stream I (f (stream i)) (i + 1)) :
    Keeps stream I (advance >>= f) i :=
  fun _ _ _ _ held hServe => h _ _ _ _ (inv.pass held) hServe

/-- A complaint about the token at hand. -/
theorem keeps_report {diagnostic : Diagnostic} (complaint : Complaint (stream i) diagnostic) :
    Keeps stream I (report diagnostic) i := by
  intro found x state j held h
  obtain ⟨hResult, rfl⟩ := Prod.mk.inj (Except.ok.inj h)
  obtain ⟨rfl, rfl⟩ := Prod.mk.inj hResult
  exact ⟨i, rfl, rfl, inv.report held complaint⟩

/-- A complaint about the token that was passed: it could as well have come before moving on. -/
theorem keeps_late_report_bind {diagnostic : Diagnostic} {f : Unit → Parser α}
    (complaint : Complaint (stream i) diagnostic) (h : Keeps stream I (f ()) (i + 1)) :
    Keeps stream I (advance >>= fun _ => report diagnostic >>= f) i :=
  fun _ _ _ _ held hServe => h _ _ _ _ (inv.pass (inv.report held complaint)) hServe

theorem keeps_unexpected : Keeps stream I unexpected i := by
  refine keeps_current_bind ?_
  split
  next hKind => exact keeps_report inv (.lexical hKind)
  next => exact keeps_report inv (.grammar _)

theorem keeps_consume (kind : TokenKind) : Keeps stream I (consume kind) i := by
  refine keeps_current_bind ?_
  split
  · exact keeps_advance_bind inv (keeps_pure _)
  · exact (keeps_unexpected inv).bind fun _ _ => keeps_pure _

theorem keeps_consumeName : Keeps stream I consumeName i :=
  (keeps_consume inv _).bind fun _ _ => keeps_pure _

/-! ### Expressions -/

section

variable {inner : Parser Expression} (hInner : ∀ i, Keeps stream I inner i)

include hInner

theorem keeps_factor (i : Nat) : Keeps stream I (factor inner) i := by
  refine keeps_current_bind ?_
  split
  · cases hConstant : constant? (stream i) with
    | some value => exact keeps_advance_bind inv (keeps_pure _)
    | none => exact keeps_late_report_bind inv (.grammar _) (keeps_pure _)
  · exact keeps_advance_bind inv (keeps_pure _)
  · exact keeps_advance_bind inv ((hInner _).bind fun _ _ =>
      (keeps_consume inv _).bind fun _ _ => keeps_pure _)
  · exact (keeps_unexpected inv).bind fun _ _ => keeps_advance_bind inv (keeps_pure _)

omit hInner in
theorem keeps_chain {operator? : TokenKind → Option Operator} {operand : Parser Expression}
    (hOperand : ∀ i, Keeps stream I operand i) (bound : Nat) (lhs : Expression) (i : Nat) :
    Keeps stream I (chain operator? operand bound lhs) i := by
  induction bound generalizing lhs i with
  | zero => exact keeps_exhausted
  | succ bound ih =>
    refine keeps_current_bind ?_
    cases operator? (stream i).kind with
    | none => exact keeps_pure lhs
    | some op => exact keeps_advance_bind inv ((hOperand _).bind fun rhs k => ih _ k)

theorem keeps_term (bound i : Nat) : Keeps stream I (term bound inner) i :=
  (keeps_factor inv hInner i).bind fun lhs k =>
    keeps_chain inv (keeps_factor inv hInner) bound lhs k

theorem keeps_sum (bound i : Nat) : Keeps stream I (sum bound inner) i :=
  (keeps_term inv hInner bound i).bind fun lhs k =>
    keeps_chain inv (keeps_term inv hInner bound) bound lhs k

theorem keeps_comparison (bound i : Nat) : Keeps stream I (comparison bound inner) i := by
  refine (keeps_sum inv hInner bound i).bind fun lhs k => keeps_current_bind ?_
  cases comparisonOperator? (stream k).kind with
  | none => exact keeps_pure lhs
  | some op =>
    exact keeps_advance_bind inv ((keeps_sum inv hInner bound _).bind fun _ _ => keeps_pure _)

end

theorem keeps_expression (bound i : Nat) : Keeps stream I (expression bound) i := by
  induction bound generalizing i with
  | zero => exact keeps_exhausted
  | succ bound ih => exact keeps_comparison inv ih bound i

/-! ### Statements -/

theorem keeps_statement {inner : Parser Expression} {nested : Parser (List Statement)}
    (hInner : ∀ i, Keeps stream I inner i) (hNested : ∀ i, Keeps stream I nested i) (i : Nat) :
    Keeps stream I (statement inner nested) i := by
  refine keeps_current_bind ?_
  split
  · refine keeps_advance_bind inv ((hInner _).bind fun test _ =>
      (keeps_consume inv _).bind fun _ _ => (hNested _).bind fun yes k => keeps_current_bind ?_)
    split
    · exact keeps_advance_bind inv ((hNested _).bind fun no _ =>
        (keeps_consume inv _).bind fun _ _ => keeps_pure _)
    · exact (keeps_consume inv _).bind fun _ _ => keeps_pure _
  · exact keeps_advance_bind inv ((hNested _).bind fun body _ =>
      (keeps_consume inv _).bind fun _ _ => (hInner _).bind fun test _ => keeps_pure _)
  · exact keeps_advance_bind inv ((keeps_consume inv _).bind fun _ _ =>
      (hInner _).bind fun value _ => keeps_pure _)
  · exact keeps_advance_bind inv ((keeps_consumeName inv).bind fun name _ => keeps_pure _)
  · exact keeps_advance_bind inv ((hInner _).bind fun value _ => keeps_pure _)
  · exact (keeps_unexpected inv).bind fun _ _ => keeps_advance_bind inv (keeps_pure _)

theorem keeps_more {one : Parser (Option Statement)} (hOne : ∀ i, Keeps stream I one i)
    (bound : Nat) (done : List Statement) (i : Nat) : Keeps stream I (more one bound done) i := by
  induction bound generalizing done i with
  | zero => exact keeps_exhausted
  | succ bound ih =>
    refine keeps_current_bind ?_
    split
    · exact keeps_pure done
    · exact (keeps_consume inv _).bind fun _ _ => (hOne _).bind fun next k => ih _ k

theorem keeps_sequence (bound i : Nat) : Keeps stream I (sequence bound) i := by
  induction bound generalizing i with
  | zero => exact keeps_exhausted
  | succ bound ih =>
    have hOne := keeps_statement inv (keeps_expression inv bound) ih
    exact (hOne i).bind fun first k => keeps_more inv hOne bound _ k

/-! ### Programs -/

omit inv in
/-- Parsing starts by moving to the first token. -/
theorem exists_of_serve_parse {bound j : Nat} {tree : Program} {found : Diagnostics}
    (h : Consumer.serve stream (parse bound) 0 = .ok ((tree, found), j)) :
    ∃ token, Consumer.serve stream (programHere bound ⟨stream 0, #[]⟩) 1 =
      .ok ((tree, ⟨token, found⟩), j) := by
  obtain ⟨⟨statements, state⟩, _, hProgram, hRest⟩ := Consumer.exists_of_serve_bind h
  obtain ⟨hResult, rfl⟩ := Prod.mk.inj (Except.ok.inj hRest)
  obtain ⟨rfl, rfl⟩ := Prod.mk.inj hResult
  exact ⟨state.current, hProgram⟩

theorem keeps_programHere (bound i : Nat) : Keeps stream I (programHere bound) i := by
  refine (keeps_sequence inv bound i).bind fun tree k => keeps_current_bind ?_
  split
  · exact (keeps_report inv (.grammar _)).bind fun _ _ => keeps_pure tree
  · exact keeps_pure tree

/-- **An invariant is kept by parsing**, from the first token on. -/
theorem Invariant.parse {bound j : Nat} {tree : Program} {found : Diagnostics}
    (h : Consumer.serve stream (Parser.parse bound) 0 = .ok ((tree, found), j))
    (start : I 0 #[]) : ∃ k, j = k + 1 ∧ I k found := by
  obtain ⟨token, hProgram⟩ := exists_of_serve_parse h
  obtain ⟨k, rfl, -, held⟩ := keeps_programHere inv bound 0 _ _ _ _ start hProgram
  exact ⟨k, rfl, held⟩

end

/-- **A lexical diagnostic names an unknown token.** -/
theorem lexical_of_parse {stream : Nat → Token} {bound j : Nat} {tree : Program}
    {found : Diagnostics}
    (h : Consumer.serve stream (parse bound) 0 = .ok ((tree, found), j)) {diagnostic : Diagnostic}
    (member : diagnostic ∈ found) (lexical : diagnostic.concern = .lexical) :
    ∃ n, (stream n).kind = .unknown ∧
      diagnostic = ⟨.lexical, (stream n).line, (stream n).lexeme⟩ := by
  let Named : Diagnostic → Prop := fun diagnostic => diagnostic.concern = .lexical →
    ∃ n, (stream n).kind = .unknown ∧
      diagnostic = ⟨.lexical, (stream n).line, (stream n).lexeme⟩
  have inv : Invariant stream fun _ found => ∀ diagnostic ∈ found, Named diagnostic := by
    refine ⟨fun held => held, fun {i found diagnostic} held complaint other hOther => ?_⟩
    rcases Array.mem_push.mp hOther with hOther | rfl
    · exact held other hOther
    · intro hLexical
      cases complaint with
      | lexical unknown => exact ⟨i, unknown, rfl⟩
      | grammar text => cases hLexical
  obtain ⟨-, -, held⟩ := inv.parse h fun _ hNone => absurd hNone (Array.not_mem_empty _)
  exact held diagnostic member lexical

end Parser

end Tiny
