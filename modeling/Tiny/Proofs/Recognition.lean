import Tiny.Proofs.Parsing
import Tiny.Proofs.Scanning

/-!
# The parser accepts exactly the grammar

The tokens of a derivation are read without a report, if a token follows with which the part
derived cannot go on.  Those tokens are what the parser looks for: the signs of a chain, and for a
sequence of statements the four kinds of tokens that end it.

* `yields_exp`, `yields_sequence`: what is derived is read, by induction over the derivation.
* `serve_parse_iff`: the parser on a stream of tokens.
* `Scanner.program_grammar`: the parser on the bytes of a source.
-/

namespace Tiny

namespace Parser

open Grammar

/-! ### What is derived is read without a report -/

section

variable {stream : Nat → Token} {k : Nat}

theorem kind_of_starts {P : TokenKind → Prop} {tokens : List Token} {i j : Nat}
    (hSpells : Spells stream i tokens j) (h : Starts P (tokens ++ [stream j])) :
    P (stream i).kind := by
  cases tokens with
  | nil =>
    obtain rfl : i = j := hSpells
    exact h
  | cons token tokens =>
    rw [hSpells.1]
    exact h

theorem yields_chain_nil {operator? : TokenKind → Option Operator} {operand : Parser Expression}
    {table : List (TokenKind × Operator)} (tabled : Tabled operator? table) {n i : Nat}
    {lhs : Expression} (apart : Apart table (stream i).kind) :
    Yields stream (chain operator? operand (n + 1) lhs) i lhs i #[] := by
  refine yields_current_bind.mpr ?_
  rw [tabled.eq_none apart]
  exact yields_pure lhs

theorem yields_chain_cons {operator? : TokenKind → Option Operator} {operand : Parser Expression}
    {table : List (TokenKind × Operator)} (tabled : Tabled operator? table) {n i j m : Nat}
    {lhs rhs e : Expression} {sign : Sign table} (hToken : stream i = sign.token)
    (hOperand : Yields stream operand (i + 1) rhs j #[])
    (hRest : Yields stream (chain operator? operand n (sign.join lhs rhs)) j e m #[]) :
    Yields stream (chain operator? operand (n + 1) lhs) i e m #[] := by
  refine yields_current_bind.mpr ?_
  rw [hToken, tabled.eq_op sign]
  exact yields_advance_bind.mpr (hOperand.seq hRest)

mutual

theorem yields_factor (ordinary : Ordinary stream k) : ∀ (d : Factor) {i j b : Nat},
    Spells stream i d.tokens j → d.tokens.length ≤ b →
    Yields stream (factor (expression b)) i d.tree j #[]
  | .number numeral, i, j, b, hSpells, hb => by
    obtain ⟨hToken, rfl⟩ := hSpells
    have hKind : (stream i).kind = .number := by rw [hToken, numeral.is]
    obtain ⟨hNil, hDigits⟩ := ordinary.digits i hKind
    refine yields_current_bind.mpr ?_
    rw [hKind]
    refine yields_advance_bind.mpr ?_
    rw [constant?_digits hNil hDigits, hToken, if_pos numeral.fits]
    exact yields_pure _
  | .name name, i, j, b, hSpells, hb => by
    obtain ⟨hToken, rfl⟩ := hSpells
    have hKind : (stream i).kind = .identifier := by rw [hToken, name.is]
    refine yields_current_bind.mpr ?_
    rw [hKind, hToken]
    exact yields_advance_bind.mpr (yields_pure _)
  | .parens left inner right, i, j, b, hSpells, hb => by
    obtain ⟨hToken, hSpells⟩ := hSpells
    obtain ⟨m, hInner, hRight, rfl⟩ := hSpells.exists_of_append
    have hKind : (stream i).kind = .leftParen := by rw [hToken, left.is]
    have hClose : (stream m).kind = .rightParen := by rw [hRight, right.is]
    simp only [Factor.tokens, List.length_cons, List.length_append, List.length_nil] at hb
    refine yields_current_bind.mpr ?_
    rw [hKind]
    refine yields_advance_bind.mpr (Yields.seq ?_ ((yields_consume hClose).seq (yields_pure _)))
    exact yields_exp ordinary inner hInner (by rw [hClose]; decide) (by omega)

theorem yields_products (ordinary : Ordinary stream k) : ∀ (d : Products) {i j b n : Nat}
    {lhs : Expression}, Spells stream i d.tokens j → Apart products (stream j).kind →
    d.tokens.length ≤ b → d.tokens.length < n →
    Yields stream (chain factorOperator? (factor (expression b)) n lhs) i (d.tree lhs) j #[]
  | .none, i, j, b, n + 1, lhs, hSpells, apart, hb, hn => by
    obtain rfl : i = j := hSpells
    exact yields_chain_nil tabled_products apart
  | .more sign factor rest, i, j, b, n + 1, lhs, hSpells, apart, hb, hn => by
    obtain ⟨hToken, hSpells⟩ := hSpells
    obtain ⟨m, hFactor, hRest⟩ := hSpells.exists_of_append
    simp only [Products.tokens, List.length_cons, List.length_append] at hb hn
    exact yields_chain_cons tabled_products hToken
      (yields_factor ordinary factor hFactor (by omega))
      (yields_products ordinary rest hRest apart (by omega) (by omega))

theorem yields_term (ordinary : Ordinary stream k) : ∀ (d : Term) {i j b : Nat},
    Spells stream i d.tokens j → Apart products (stream j).kind → d.tokens.length ≤ b →
    Yields stream (term b (expression b)) i d.tree j #[]
  | .mk first rest, i, j, b, hSpells, apart, hb => by
    obtain ⟨m, hFirst, hRest⟩ := hSpells.exists_of_append
    have hPos := first.length_tokens_pos
    simp only [Term.tokens, List.length_append] at hb
    exact (yields_factor ordinary first hFirst (by omega)).seq
      (yields_products ordinary rest hRest apart (by omega) (by omega))

theorem yields_sums (ordinary : Ordinary stream k) : ∀ (d : Sums) {i j b n : Nat}
    {lhs : Expression}, Spells stream i d.tokens j → Apart (products ++ sums) (stream j).kind →
    d.tokens.length ≤ b → d.tokens.length < n →
    Yields stream (chain termOperator? (term b (expression b)) n lhs) i (d.tree lhs) j #[]
  | .none, i, j, b, n + 1, lhs, hSpells, apart, hb, hn => by
    obtain rfl : i = j := hSpells
    exact yields_chain_nil tabled_sums apart.right
  | .more sign term rest, i, j, b, n + 1, lhs, hSpells, apart, hb, hn => by
    obtain ⟨hToken, hSpells⟩ := hSpells
    obtain ⟨m, hTerm, hRest⟩ := hSpells.exists_of_append
    have hBehind := kind_of_starts hRest (rest.starts apart)
    simp only [Sums.tokens, List.length_cons, List.length_append] at hb hn
    exact yields_chain_cons tabled_sums hToken
      (yields_term ordinary term hTerm hBehind (by omega))
      (yields_sums ordinary rest hRest apart (by omega) (by omega))

theorem yields_simple (ordinary : Ordinary stream k) : ∀ (d : Simple) {i j b : Nat},
    Spells stream i d.tokens j → Apart (products ++ sums) (stream j).kind →
    d.tokens.length ≤ b → Yields stream (sum b (expression b)) i d.tree j #[]
  | .mk first rest, i, j, b, hSpells, apart, hb => by
    obtain ⟨m, hFirst, hRest⟩ := hSpells.exists_of_append
    have hBehind := kind_of_starts hRest (rest.starts apart)
    have hPos := first.length_tokens_pos
    simp only [Simple.tokens, List.length_append] at hb
    exact (yields_term ordinary first hFirst hBehind (by omega)).seq
      (yields_sums ordinary rest hRest apart (by omega) (by omega))

theorem yields_exp (ordinary : Ordinary stream k) : ∀ (d : Exp) {i j b : Nat},
    Spells stream i d.tokens j → Apart signs (stream j).kind → d.tokens.length < b →
    Yields stream (expression b) i d.tree j #[]
  | .simple only, i, j, b + 1, hSpells, apart, hb => by
    refine (yields_simple ordinary only hSpells apart.left (Nat.le_of_lt_succ hb)).seq ?_
    refine yields_current_bind.mpr ?_
    rw [tabled_comparisons.eq_none apart.right]
    exact yields_pure _
  | .comparison left sign right, i, j, b + 1, hSpells, apart, hb => by
    obtain ⟨m, hLeft, hToken, hRight⟩ := hSpells.exists_of_append
    have hBehind : Apart (products ++ sums) (stream m).kind := by
      rw [hToken]
      exact starts_sign sign [] (by decide)
    simp only [Exp.tokens, List.length_cons, List.length_append] at hb
    refine (yields_simple ordinary left hLeft hBehind (by omega)).seq ?_
    refine yields_current_bind.mpr ?_
    rw [hToken, tabled_comparisons.eq_op sign]
    exact yields_advance_bind.mpr
      ((yields_simple ordinary right hRight apart.left (by omega)).seq (yields_pure _))

end

theorem closes_of_endsSequence {kind : TokenKind} (h : endsSequence kind = true) : Closes kind := by
  unfold endsSequence at h
  split at h
  · decide
  · decide
  · decide
  · decide
  · exact nomatch h

mutual

theorem yields_stmt (ordinary : Ordinary stream k) : ∀ (d : Stmt) {i j b : Nat},
    Spells stream i d.tokens j → Apart signs (stream j).kind → d.tokens.length ≤ b →
    Yields stream (statement (expression b) (sequence b)) i (some d.tree) j #[]
  | .ifThen opening test middle yes closing, i, j, b, hSpells, apart, hb => by
    obtain ⟨hOpening, hSpells⟩ := hSpells
    obtain ⟨m, hTest, hMiddle, hSpells⟩ := hSpells.exists_of_append
    obtain ⟨n, hYes, hClosing, rfl⟩ := hSpells.exists_of_append
    have hIf : (stream i).kind = .keyword .kwIf := by rw [hOpening, opening.is]
    have hThen : (stream m).kind = .keyword .kwThen := by rw [hMiddle, middle.is]
    have hEnd : (stream n).kind = .keyword .kwEnd := by rw [hClosing, closing.is]
    simp only [Stmt.tokens, List.length_cons, List.length_append] at hb
    refine yields_current_bind.mpr ?_
    rw [hIf, hOpening]
    refine yields_advance_bind.mpr (Yields.seq
      (yields_exp ordinary test hTest (by rw [hThen]; decide) (by omega)) ?_)
    refine (yields_consume hThen).seq (Yields.seq
      (yields_sequence ordinary yes hYes (by rw [hEnd]; rfl) (by omega)) ?_)
    refine yields_current_bind.mpr ?_
    rw [if_neg (by rw [hEnd]; decide)]
    exact (yields_consume hEnd).seq (yields_pure _)
  | .ifElse opening test middle yes turn no closing, i, j, b, hSpells, apart, hb => by
    obtain ⟨hOpening, hSpells⟩ := hSpells
    obtain ⟨m, hTest, hMiddle, hSpells⟩ := hSpells.exists_of_append
    obtain ⟨n, hYes, hTurn, hSpells⟩ := hSpells.exists_of_append
    obtain ⟨l, hNo, hClosing, rfl⟩ := hSpells.exists_of_append
    have hIf : (stream i).kind = .keyword .kwIf := by rw [hOpening, opening.is]
    have hThen : (stream m).kind = .keyword .kwThen := by rw [hMiddle, middle.is]
    have hElse : (stream n).kind = .keyword .kwElse := by rw [hTurn, turn.is]
    have hEnd : (stream l).kind = .keyword .kwEnd := by rw [hClosing, closing.is]
    simp only [Stmt.tokens, List.length_cons, List.length_append] at hb
    refine yields_current_bind.mpr ?_
    rw [hIf, hOpening]
    refine yields_advance_bind.mpr (Yields.seq
      (yields_exp ordinary test hTest (by rw [hThen]; decide) (by omega)) ?_)
    refine (yields_consume hThen).seq (Yields.seq
      (yields_sequence ordinary yes hYes (by rw [hElse]; rfl) (by omega)) ?_)
    refine yields_current_bind.mpr ?_
    rw [if_pos hElse]
    refine yields_advance_bind.mpr (Yields.seq
      (yields_sequence ordinary no hNo (by rw [hEnd]; rfl) (by omega)) ?_)
    exact (yields_consume hEnd).seq (yields_pure _)
  | .loop opening body closing test, i, j, b, hSpells, apart, hb => by
    obtain ⟨hOpening, hSpells⟩ := hSpells
    obtain ⟨m, hBody, hClosing, hTest⟩ := hSpells.exists_of_append
    have hRepeat : (stream i).kind = .keyword .kwRepeat := by rw [hOpening, opening.is]
    have hUntil : (stream m).kind = .keyword .kwUntil := by rw [hClosing, closing.is]
    simp only [Stmt.tokens, List.length_cons, List.length_append] at hb
    refine yields_current_bind.mpr ?_
    rw [hRepeat, hOpening]
    refine yields_advance_bind.mpr (Yields.seq
      (yields_sequence ordinary body hBody (by rw [hUntil]; rfl) (by omega)) ?_)
    refine (yields_consume hUntil).seq (Yields.seq ?_ (yields_pure _))
    exact yields_exp ordinary test hTest apart (by omega)
  | .assign name sign value, i, j, b, hSpells, apart, hb => by
    obtain ⟨hName, hSign, hValue⟩ := hSpells
    have hIdent : (stream i).kind = .identifier := by rw [hName, name.is]
    have hAssign : (stream (i + 1)).kind = .assign := by rw [hSign, sign.is]
    simp only [Stmt.tokens, List.length_cons] at hb
    refine yields_current_bind.mpr ?_
    rw [hIdent, hName]
    refine yields_advance_bind.mpr ((yields_consume hAssign).seq (Yields.seq ?_ (yields_pure _)))
    exact yields_exp ordinary value hValue apart (by omega)
  | .read opening name, i, j, b, hSpells, apart, hb => by
    obtain ⟨hOpening, hName, rfl⟩ := hSpells
    have hRead : (stream i).kind = .keyword .kwRead := by rw [hOpening, opening.is]
    have hIdent : (stream (i + 1)).kind = .identifier := by rw [hName, name.is]
    refine yields_current_bind.mpr ?_
    rw [hRead, hOpening]
    refine yields_advance_bind.mpr ((yields_consumeName hIdent).seq ?_)
    rw [hName]
    exact yields_pure _
  | .write opening value, i, j, b, hSpells, apart, hb => by
    obtain ⟨hOpening, hValue⟩ := hSpells
    have hWrite : (stream i).kind = .keyword .kwWrite := by rw [hOpening, opening.is]
    simp only [Stmt.tokens, List.length_cons] at hb
    refine yields_current_bind.mpr ?_
    rw [hWrite, hOpening]
    refine yields_advance_bind.mpr (Yields.seq ?_ (yields_pure _))
    exact yields_exp ordinary value hValue apart (by omega)

theorem yields_rest (ordinary : Ordinary stream k) : ∀ (d : Rest) {i j b n : Nat}
    {done : List Statement}, Spells stream i d.tokens j → endsSequence (stream j).kind = true →
    d.tokens.length ≤ b → d.tokens.length < n →
    Yields stream (more (statement (expression b) (sequence b)) n done) i (done ++ d.tree) j #[]
  | .none, i, j, b, n + 1, done, hSpells, ends, hb, hn => by
    obtain rfl : i = j := hSpells
    refine yields_current_bind.mpr ?_
    rw [if_pos ends, Rest.tree, List.append_nil]
    exact yields_pure done
  | .more separator next rest, i, j, b, n + 1, done, hSpells, ends, hb, hn => by
    obtain ⟨hToken, hSpells⟩ := hSpells
    obtain ⟨m, hNext, hRest⟩ := hSpells.exists_of_append
    have hKind : (stream i).kind = .semicolon := by rw [hToken, separator.is]
    have hBehind := kind_of_starts hRest (rest.starts (closes_of_endsSequence ends))
    simp only [Rest.tokens, List.length_cons, List.length_append] at hb hn
    have hMore := @yields_rest ordinary rest m j b n (done ++ [next.tree]) hRest ends
      (by omega) (by omega)
    rw [List.append_assoc] at hMore
    refine yields_current_bind.mpr ?_
    rw [if_neg (by rw [hKind]; decide)]
    exact (yields_consume hKind).seq
      ((yields_stmt ordinary next hNext hBehind (by omega)).seq hMore)

theorem yields_sequence (ordinary : Ordinary stream k) : ∀ (d : Sequence) {i j b : Nat},
    Spells stream i d.tokens j → endsSequence (stream j).kind = true → d.tokens.length < b →
    Yields stream (sequence b) i d.tree j #[]
  | .mk first rest, i, j, b + 1, hSpells, ends, hb => by
    obtain ⟨m, hFirst, hRest⟩ := hSpells.exists_of_append
    have hBehind := kind_of_starts hRest (rest.starts (closes_of_endsSequence ends))
    have hPos := first.length_tokens_pos
    simp only [Sequence.tokens, List.length_append] at hb
    exact (yields_stmt ordinary first hFirst hBehind (by omega)).seq
      (yields_rest ordinary rest hRest ends (by omega) (by omega))

end

end

/-! ### Programs -/

section

variable {stream : Nat → Token} {k bound : Nat}

/-- The parser of programs, looking at the first token. -/
def programHere (bound : Nat) : Parser Program := do
  let statements ← sequence bound
  let token ← current
  if token.kind ≠ .endOfFile then
    report ⟨.grammar, token.line, "Code ends before file"⟩
  return statements

theorem program_eq (bound : Nat) : program bound = (do let _ ← advance; programHere bound) := rfl

theorem reads_programHere (ordinary : Ordinary stream k) (h : k + 1 < bound) :
    Reads stream (programHere bound) 0 0 fun tree j =>
      j = k ∧ Denotes Sequence.tokens Sequence.tree stream 0 tree j := by
  refine (reads_sequence ordinary bound 0 (by omega)).bind fun tree j hj => ?_
  refine reads_current_bind.mpr ?_
  by_cases hEnd : (stream j).kind = .endOfFile
  · rw [if_neg (not_not_intro hEnd)]
    refine reads_pure (Nat.zero_le j) ?_
    rintro ⟨d, hSpells, hTree⟩
    refine ⟨Nat.le_antisymm (Nat.le_of_not_lt fun hkj => ?_) ((ordinary.ends j).mp hEnd),
      d, hSpells, hTree⟩
    -- The token at `k` would be one of those derived, but it is the end.
    exact (d.known _ (hSpells.mem (Nat.zero_le k) hkj)).1 ((ordinary.ends k).mpr (Nat.le_refl k))
  · rw [if_pos hEnd]
    exact (yields_report _).reads_bind (reads_pure (Nat.zero_le j) trivial)

theorem yields_programHere (ordinary : Ordinary stream k) (h : k + 1 < bound) {d : Sequence}
    (hSpells : Spells stream 0 d.tokens k) :
    Yields stream (programHere bound) 0 d.tree k #[] := by
  have hEnd : (stream k).kind = .endOfFile := (ordinary.ends k).mpr (Nat.le_refl k)
  have hLength := hSpells.eq_add
  refine (yields_sequence ordinary d hSpells (by rw [hEnd]; rfl) (by omega)).seq ?_
  refine yields_current_bind.mpr ?_
  rw [if_neg (not_not_intro hEnd)]
  exact yields_pure _

theorem serve_parse {tree : Program} {found : Diagnostics} {j : Nat}
    (h : Yields stream (programHere bound) 0 tree j found) :
    Consumer.serve stream (parse bound) 0 = .ok ((tree, found), j + 1) := by
  have hHere := h #[]
  rw [Array.empty_append] at hHere
  have hProgram : Consumer.serve stream ((program bound).run {}) 0 =
      .ok ((tree, ⟨stream j, found⟩), j + 1) := by
    rw [program_eq]
    exact hHere
  exact Consumer.serve_bind hProgram

/-- **The parser follows the grammar.**  It always gives a program.  It reports nothing if and only
if the tokens before the end are derived, and then the program is the tree of the derivation. -/
theorem serve_parse_iff (ordinary : Ordinary stream k) (h : k + 1 < bound) :
    ∃ tree found j, Consumer.serve stream (parse bound) 0 = .ok ((tree, found), j) ∧
      (found = #[] ↔ ∃ d : Sequence, Spells stream 0 d.tokens k) ∧
      ∀ d : Sequence, Spells stream 0 d.tokens k → tree = d.tree := by
  obtain ⟨tree, j, found, hYields, -, hDerived⟩ := reads_programHere ordinary h
  refine ⟨tree, found, j + 1, serve_parse hYields, ⟨fun hFound => ?_, ?_⟩, fun d hSpells => ?_⟩
  · obtain ⟨rfl, d, hSpells, -⟩ := hDerived hFound
    exact ⟨d, hSpells⟩
  · rintro ⟨d, hSpells⟩
    exact (hYields.unique (yields_programHere ordinary h hSpells)).2
  · exact (hYields.unique (yields_programHere ordinary h hSpells)).1

end

end Parser

/-- Scanning and parsing from the same scanner: the tokens before the end are scanned, and the
parser reports nothing if and only if they are derived. -/
theorem Scanner.exists_parse {scanner : Scanner} (quiet : scanner.Quiet) :
    ∃ k tokens tree found j,
      Ordinary scanner.upcoming k ∧ Spells scanner.upcoming 0 tokens k ∧
      drain scanner.tokenBound scanner =
        .ok (tokens ++ [scanner.upcoming k]) (scanner.later (k + 1)) ∧
      Consumer.serve scanner.upcoming (Parser.parse (scanner.tokenBound + 1)) 0 =
        .ok ((tree, found), j) ∧
      (found = #[] ↔ ∃ d : Grammar.Sequence, d.tokens = tokens) ∧
      ∀ d : Grammar.Sequence, d.tokens = tokens → tree = d.tree := by
  obtain ⟨tokens, hBound, ordinary, hSpells, -, hDrain⟩ := exists_tokens quiet
  obtain ⟨tree, found, j, hServe, hIff, hTree⟩ := @Parser.serve_parse_iff _ _
    (scanner.tokenBound + 1) ordinary (Nat.succ_lt_succ hBound)
  have hSame : ∀ d : Grammar.Sequence,
      Spells scanner.upcoming 0 d.tokens tokens.length ↔ d.tokens = tokens :=
    fun d => ⟨fun h => h.unique hSpells, fun h => h ▸ hSpells⟩
  refine ⟨tokens.length, tokens, tree, found, j, ordinary, hSpells, hDrain, hServe,
    hIff.trans (exists_congr hSame), fun d hd => hTree d ((hSame d).mpr hd)⟩

/-- **The parser accepts exactly the grammar.**  For every source, the parser gives a program.  It
reports nothing if and only if there is a derivation of the tokens before the end of the source.
That derivation is the only one, and the program is its tree. -/
theorem Scanner.program_grammar (bytes : List UInt8) (written : ByteArray) (options : Options) :
    let scanner : Scanner := { feed := .ofBytes bytes, listing := { written }, options }
    ∃ tokens last drained tree found parsed,
      Scanner.drain scanner.tokenBound scanner = .ok (tokens ++ [last]) drained ∧
      last.kind = .endOfFile ∧ (∀ token ∈ tokens, token.kind ≠ .endOfFile) ∧
      Scanner.program scanner = .ok (tree, found) parsed ∧
      (found = #[] ↔ ∃ d : Grammar.Sequence, d.tokens = tokens) ∧
      ∀ d : Grammar.Sequence, d.tokens = tokens →
        tree = d.tree ∧ tree ≠ [] ∧ Program.Intact tree ∧
          ∀ d' : Grammar.Sequence, d'.tokens = tokens → d' = d := by
  intro scanner
  have quiet : scanner.Quiet := ⟨Feed.unfailing_ofBytes bytes, rfl⟩
  obtain ⟨k, hk, ordinary⟩ := ordinary_upcoming quiet
  obtain ⟨tokens, hSpells, hDrain⟩ := @drain_run _ quiet _ ordinary 0 scanner.tokenBound
    (Nat.zero_le k) (by unfold tokenBound; omega)
  obtain ⟨tree, found, j, hServe, hIff, hTree⟩ := @Parser.serve_parse_iff _ _
    (scanner.tokenBound + 1) ordinary (by unfold tokenBound; omega)
  have hSame : ∀ d : Grammar.Sequence, d.tokens = tokens ↔ Spells scanner.upcoming 0 d.tokens k :=
    fun d => ⟨fun h => h ▸ hSpells, fun h => h.unique hSpells⟩
  refine ⟨tokens, scanner.upcoming k, _, tree, found, _, hDrain,
    (ordinary.ends k).mpr (Nat.le_refl k), fun token member hEnd => ?_, runOn_of_serve quiet hServe,
    hIff.trans (exists_congr fun d => (hSame d).symm), fun d hd => ?_⟩
  · obtain ⟨n, hn, rfl⟩ := hSpells.exists_of_mem member
    exact Nat.not_le_of_lt hn ((ordinary.ends n).mp hEnd)
  · obtain rfl := hTree d ((hSame d).mp hd)
    exact ⟨rfl, d.tree_ne_nil, d.intact_tree, fun d' hd' =>
      Grammar.Sequence.eq_of_tokens (hd'.trans hd.symm)⟩

end Tiny
