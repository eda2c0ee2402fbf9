import Tiny.Proofs.Following
import Tiny.Proofs.Tokenisation

/-!
# Layout between tokens

Blanks and comments may be put behind any token of a source: the tokens stay the same, only on other
lines.

* `SameTokens`: two sources have the same tokens, up to lines.
* `Divides.insert_behind`: a gap that is put behind a part changes the gap of the next one only.
* `sameTokens_insert`: so the tokens are the same.
* `upcoming_of_sameTokens`: scanners of such sources give the same stream of tokens, up to lines.
-/

namespace Tiny

/-! ### Divisions with one more gap -/

theorem Gap.append {gap more : List UInt8} (h : Gap gap) (h' : Gap more) : Gap (gap ++ more) := by
  induction h with
  | nil => exact h'
  | blank isSpace tail ih => exact .blank isSpace ih
  | @comment body rest inside tail ih =>
    rw [List.cons_append, List.append_assoc, List.cons_append]
    exact .comment inside ih

theorem Gap.severs_first {gap : List UInt8} (h : Gap gap) : ∀ b ∈ gap.head?, Severs b := by
  intro b hb
  cases h with
  | nil => cases hb
  | blank isSpace tail =>
    obtain rfl := Option.some.inj hb
    exact severs_of_space isSpace
  | comment inside tail =>
    obtain rfl := Option.some.inj hb
    exact ⟨by decide, by decide, by decide⟩

/-- What stands at the edge of a piece is what stood there, or a byte that does not matter to it. -/
def Kept (edge edge' : Option UInt8) : Prop :=
  ∀ b ∈ edge', b ∈ edge ∨ Severs b

theorem kept_refl (edge : Option UInt8) : Kept edge edge :=
  fun _ hb => .inl hb

theorem kept_of_severs {edge : Option UInt8} (h : ∀ b ∈ edge, Severs b) (old : Option UInt8) :
    Kept old (edge.or old) := by
  intro b hb
  cases edge with
  | none => exact .inl hb
  | some c => exact .inr (h b hb)

theorem Kept.or {edge edge' : Option UInt8} (h : Kept edge edge') (nearer : Option UInt8) :
    Kept (nearer.or edge) (nearer.or edge') := by
  cases nearer with
  | none => exact h
  | some b => exact kept_refl (some b)

theorem Kept.before {before before' : List UInt8} (h : Kept before.getLast? before'.getLast?)
    (bytes : List UInt8) : Kept (before ++ bytes).getLast? (before' ++ bytes).getLast? := by
  rw [List.getLast?_append, List.getLast?_append]
  exact h.or bytes.getLast?

theorem Kept.behind {rest rest' : List UInt8} (h : Kept rest.head? rest'.head?)
    (bytes : List UInt8) : Kept (bytes ++ rest).head? (bytes ++ rest').head? := by
  rw [List.head?_append, List.head?_append]
  exact h.or bytes.head?

theorem Maximal.move {p : UInt8 → Bool} {before before' run rest rest' : List UInt8}
    (h : Maximal p before run rest) (hp : ∀ b, Severs b → p b = false)
    (hBefore : Kept before.getLast? before'.getLast?) (hRest : Kept rest.head? rest'.head?) :
    Maximal p before' run rest' := by
  refine ⟨h.nonempty, h.all, fun b hb => ?_, fun b hb => ?_⟩
  · rcases hBefore b hb with hb | severs
    · exact h.starts b hb
    · exact hp b severs
  · rcases hRest b hb with hb | severs
    · exact h.ends b hb
    · exact hp b severs

/-- A piece is known by the bytes at its edges. -/
theorem Piece.move {before before' rest rest' run : List UInt8} {kind : TokenKind}
    (piece : Piece before rest run kind) (hBefore : Kept before.getLast? before'.getLast?)
    (hRest : Kept rest.head? rest'.head?) : Piece before' rest' run kind := by
  cases piece with
  | number digits => exact .number (digits.move (fun _ severs => severs.1) hBefore hRest)
  | reserved letters spelled =>
    exact .reserved (letters.move (fun _ severs => severs.2.1) hBefore hRest) spelled
  | name letters free =>
    exact .name (letters.move (fun _ severs => severs.2.1) hBefore hRest) free
  | assign => exact .assign
  | lone alone =>
    refine .lone fun hHead => ?_
    rcases hRest equalSign hHead with hEqual | severs
    · exact alone hEqual
    · exact severs.2.2 rfl
  | sign known => exact .sign known
  | stray solid noDigit noLetter noColon noSign =>
    exact .stray solid noDigit noLetter noColon noSign

theorem Divides.move {before before' bytes last : List UInt8} {parts : List Part}
    (h : Divides before parts last bytes) (hBefore : Kept before.getLast? before'.getLast?) :
    Divides before' parts last bytes := by
  induction parts generalizing before before' bytes with
  | nil => exact h
  | cons part parts ih =>
    obtain ⟨rest, rfl, gaps, piece, h⟩ := h
    exact ⟨rest, rfl, gaps, piece.move (hBefore.before part.gap) (kept_refl _),
      ih h (hBefore.before _)⟩

/-- A gap in front of some bytes goes into the gap of their first part. -/
theorem Divides.insert {before bytes last layout : List UInt8} {parts : List Part}
    (h : Divides before parts last bytes) (gaps : Gap layout) :
    ∃ parts' last', Divides before parts' last' (layout ++ bytes) ∧
      parts'.map (·.token 0) = parts.map (·.token 0) := by
  cases parts with
  | nil =>
    obtain ⟨rfl, ends⟩ := h
    exact ⟨[], layout ++ bytes, ⟨rfl, ends.behind layout fun _ more => gaps.append more⟩, rfl⟩
  | cons part parts =>
    obtain ⟨rest, rfl, more, piece, h⟩ := h
    have hKept : Kept before.getLast? (before ++ layout).getLast? := by
      rw [List.getLast?_append]
      exact kept_of_severs gaps.severs_last _
    refine ⟨{ part with gap := layout ++ part.gap } :: parts, last,
      ⟨rest, (List.append_assoc _ _ _).symm, gaps.append more, ?_, ?_⟩, rfl⟩
    · rw [← List.append_assoc]
      exact piece.move (hKept.before part.gap) (kept_refl _)
    · have hMoved := h.move (hKept.before (part.gap ++ part.bytes))
      rw [List.append_assoc, ← List.append_assoc layout] at hMoved
      exact hMoved

/-- **A gap may be put behind any part.**  The parts in front of it stay as they are, and those
behind it have the same bytes. -/
theorem Divides.insert_behind {before bytes last layout : List UInt8} {first rest : List Part}
    (h : Divides before (first ++ rest) last bytes) (gaps : Gap layout) :
    ∃ back parts last',
      bytes = (first.flatMap fun part => part.gap ++ part.bytes) ++ back ∧
      Divides before parts last'
        ((first.flatMap fun part => part.gap ++ part.bytes) ++ (layout ++ back)) ∧
      parts.map (·.token 0) = (first ++ rest).map (·.token 0) := by
  induction first generalizing before bytes with
  | nil =>
    obtain ⟨parts, last', divides, hTokens⟩ := h.insert gaps
    exact ⟨bytes, parts, last', rfl, divides, hTokens⟩
  | cons part first ih =>
    obtain ⟨tail, rfl, more, piece, h⟩ := h
    obtain ⟨back, parts, last', rfl, divides, hTokens⟩ := ih h
    have hKept : Kept back.head? (layout ++ back).head? := by
      rw [List.head?_append]
      exact kept_of_severs gaps.severs_first _
    refine ⟨back, part :: parts, last', ?_, ⟨_, ?_, more, ?_, divides⟩, ?_⟩
    · rw [List.flatMap_cons, List.append_assoc, List.append_assoc]
    · rw [List.flatMap_cons, List.append_assoc, List.append_assoc]
    · exact piece.move (kept_refl _) (hKept.behind _)
    · rw [List.map_cons, hTokens]
      rfl

/-! ### Tokens of a source -/

namespace Scanner

/-- The tokens of a source up to its end, without their lines, as a scanner gives them one after the
other. -/
def shapes (bytes : List UInt8) : List (Except Fault Token) :=
  ((start bytes).calls isOpen (start bytes).tokenBound).map fun call => call.1.map Token.unlined

theorem token_kind_ne {line : Nat} {first : UInt8} {scanner after : Scanner} {taken : Token}
    (h : token line first scanner = .ok taken after) : taken.kind ≠ .endOfFile := by
  unfold token at h
  split at h
  · obtain ⟨_, _, -, h⟩ := bind_eq_ok h
    obtain ⟨_, _, -, h⟩ := bind_eq_ok h
    obtain ⟨rfl, -⟩ := ok_inj h
    unfold Token.ofRun
    split <;> exact nofun
  split at h
  · obtain ⟨_, _, -, h⟩ := bind_eq_ok h
    obtain ⟨run, _, -, h⟩ := bind_eq_ok h
    obtain ⟨rfl, -⟩ := ok_inj h
    exact (Token.lexical_word (first :: run) line).1
  split at h
  · obtain ⟨_, _, -, h⟩ := bind_eq_ok h
    obtain ⟨taken', _, -, h⟩ := bind_eq_ok h
    split at h
    · obtain ⟨rfl, -⟩ := ok_inj h
      exact nofun
    · obtain ⟨rfl, -⟩ := ok_inj h
      exact nofun
  · obtain ⟨rfl, -⟩ := ok_inj h
    exact (Token.lexical_byte first _ line).1

/-- The end of a source has no letters. -/
theorem unlined_of_end {scanner after : Scanner} {taken : Token}
    (h : next scanner = .ok taken after) (hEnd : taken.kind = .endOfFile) :
    taken.unlined = ⟨.endOfFile, "", 0⟩ := by
  rw [next, get_bind] at h
  obtain ⟨⟨lineno, first⟩, skipped, -, h⟩ := bind_eq_ok h
  cases first with
  | none =>
    obtain ⟨rfl, -⟩ := trace_ok h
    rfl
  | some b =>
    obtain ⟨taken', middle, hToken, h⟩ := bind_eq_ok h
    obtain ⟨rfl, -⟩ := trace_ok h
    exact absurd hEnd (token_kind_ne hToken)

theorem calls_succ (goesOn : Except Fault Token → Bool) (bound : Nat) (scanner : Scanner) :
    scanner.calls goesOn (bound + 1) = scanner.call ::
      if goesOn scanner.call.1 then scanner.call.2.calls goesOn bound else [] := rfl

theorem exists_of_mem_calls {goesOn : Except Fault Token → Bool} {bound : Nat}
    {scanner : Scanner} {called : Except Fault Token × Scanner}
    (h : called ∈ scanner.calls goesOn bound) : ∃ other : Scanner, other.call = called := by
  induction bound generalizing scanner with
  | zero => exact nomatch h
  | succ bound ih =>
    rw [calls_succ] at h
    rcases List.mem_cons.mp h with rfl | h
    · exact ⟨scanner, rfl⟩
    by_cases hOn : goesOn scanner.call.1 = true
    · rw [if_pos hOn] at h
      exact ih h
    · rw [if_neg hOn] at h
      exact nomatch h

theorem next_of_call {scanner after : Scanner} {taken : Token}
    (h : scanner.call = (.ok taken, after)) : next scanner = .ok taken after := by
  unfold call at h
  split at h
  next hNext =>
    cases h
    exact hNext
  next => cases h

end Scanner

theorem Part.token_unlined (part : Part) (line : Nat) :
    (part.token line).unlined = part.token 0 := by
  unfold Part.token
  split <;> rfl

theorem Part.tokens_unlined (before : List UInt8) (parts : List Part) :
    (Part.tokens before parts).map Token.unlined = parts.map (·.token 0) := by
  induction parts generalizing before with
  | nil => rfl
  | cons part parts ih => rw [Part.tokens, List.map_cons, List.map_cons, ih, part.token_unlined]

namespace Scanner

/-- The tokens of a source are those of its parts, and the end. -/
theorem shapes_eq {bytes last : List UInt8} {parts : List Part}
    (h : Divides [] parts last bytes) :
    shapes bytes =
      List.map Except.ok (parts.map (Part.token · 0) ++ [(⟨.endOfFile, "", 0⟩ : Token)]) := by
  obtain ⟨parts', last', ending, divides, hEnd, hCalls⟩ := calls_division (quiet_start bytes)
    (holds_ofBytes bytes {} {}) (parted_nil bytes)
  obtain ⟨rfl, rfl⟩ := h.unique divides
  have hOutcomes := hCalls (start bytes).tokenBound (Nat.lt_succ_self _)
  have hEnding : ending.unlined = ⟨.endOfFile, "", 0⟩ := by
    have hMem : Except.ok ending ∈
        ((start bytes).calls isOpen (start bytes).tokenBound).map Prod.fst := by
      rw [hOutcomes]
      simp
    obtain ⟨⟨outcome, after⟩, hCall, rfl⟩ := List.mem_map.mp hMem
    obtain ⟨other, hOther⟩ := exists_of_mem_calls hCall
    exact unlined_of_end (next_of_call hOther) hEnd
  have hShapes : shapes bytes =
      (((start bytes).calls isOpen (start bytes).tokenBound).map Prod.fst).map
        (·.map Token.unlined) := by
    rw [shapes, List.map_map]
    rfl
  rw [hShapes, hOutcomes, List.map_map, ← Part.tokens_unlined [] parts, ← hEnding,
    ← List.map_singleton, ← List.map_append, List.map_map]
  rfl

/-- Two sources have the same tokens, up to their lines. -/
def SameTokens (bytes bytes' : List UInt8) : Prop :=
  shapes bytes = shapes bytes'

/-- **Layout behind a token changes no token.** -/
theorem sameTokens_insert {bytes last layout : List UInt8} {first rest : List Part}
    (h : Divides [] (first ++ rest) last bytes) (gaps : Gap layout) :
    ∃ back, bytes = (first.flatMap fun part => part.gap ++ part.bytes) ++ back ∧
      SameTokens bytes
        ((first.flatMap fun part => part.gap ++ part.bytes) ++ (layout ++ back)) := by
  obtain ⟨back, parts, last', hBytes, divides, hTokens⟩ := h.insert_behind gaps
  refine ⟨back, hBytes, ?_⟩
  rw [SameTokens, shapes_eq h, shapes_eq divides, hTokens]

/-! ### Streams of tokens -/

/-- Where a stream ends, the tokens are known. -/
theorem upcoming_of_end {scanner : Scanner} (quiet : scanner.Quiet) {i : Nat}
    (h : (scanner.upcoming i).kind = .endOfFile) :
    (scanner.upcoming i).unlined = ⟨.endOfFile, "", 0⟩ :=
  unlined_of_end (next_later quiet i) h

/-- Scanners whose calls give the same up to lines give the same stream up to lines. -/
theorem upcoming_of_calls {scanner scanner' : Scanner} (quiet : scanner.Quiet)
    (quiet' : scanner'.Quiet) {bound bound' : Nat} (hBound : scanner.feed.length < bound)
    (hBound' : scanner'.feed.length < bound')
    (same : (scanner.calls isOpen bound).map (fun call => call.1.map Token.unlined) =
      (scanner'.calls isOpen bound').map fun call => call.1.map Token.unlined) (i : Nat) :
    (scanner.upcoming i).unlined = (scanner'.upcoming i).unlined := by
  obtain ⟨taken, after, hNext, hAfter, hCases⟩ := next_quiet quiet
  obtain ⟨taken', after', hNext', hAfter', hCases'⟩ := next_quiet quiet'
  obtain ⟨bound, rfl⟩ : ∃ n, bound = n + 1 := ⟨bound - 1, by omega⟩
  obtain ⟨bound', rfl⟩ : ∃ n, bound' = n + 1 := ⟨bound' - 1, by omega⟩
  have hCall : scanner.call = (.ok taken, after) := by rw [call, hNext]
  have hCall' : scanner'.call = (.ok taken', after') := by rw [call, hNext']
  rw [calls_succ, calls_succ, hCall, hCall', List.map_cons, List.map_cons] at same
  obtain ⟨hFirst, hLater⟩ := List.cons.inj same
  have hTaken : taken.unlined = taken'.unlined := Except.ok.inj hFirst
  have hKind := (Token.eq_of_unlined hTaken).1
  cases i with
  | zero =>
    rw [upcoming_zero hNext, upcoming_zero hNext']
    exact hTaken
  | succ i =>
    rw [upcoming_succ hNext, upcoming_succ hNext']
    rcases hCases with ⟨hEnd, hFeed⟩ | ⟨hLexical, hShort⟩
    · -- both sources are at their end, where there are no letters
      rcases hCases' with ⟨-, hFeed'⟩ | ⟨hLexical', -⟩
      · rw [upcoming_of_end hAfter (upcoming_of_nil hAfter hFeed i),
          upcoming_of_end hAfter' (upcoming_of_nil hAfter' hFeed' i)]
      · exact absurd (hKind.symm.trans hEnd) hLexical'.1
    · rcases hCases' with ⟨hEnd', -⟩ | ⟨hLexical', hShort'⟩
      · exact absurd (hKind.trans hEnd') hLexical.1
      · have hOn : isOpen (.ok taken) = true := bne_iff_ne.mpr hLexical.1
        have hOn' : isOpen (.ok taken') = true := bne_iff_ne.mpr hLexical'.1
        rw [if_pos hOn, if_pos hOn'] at hLater
        exact upcoming_of_calls hAfter hAfter' (by omega) (by omega) hLater i
termination_by i

theorem upcoming_of_sameTokens {bytes bytes' : List UInt8} (h : SameTokens bytes bytes')
    (i : Nat) : ((start bytes).upcoming i).unlined = ((start bytes').upcoming i).unlined :=
  upcoming_of_calls (quiet_start bytes) (quiet_start bytes') (Nat.lt_succ_self _)
    (Nat.lt_succ_self _) h i

end Scanner

end Tiny
