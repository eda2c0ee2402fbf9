import Mathlib
import Tiny.Proofs.Tracing

/-!
# Errors are found early

A beginning of a source is viable if it is the beginning of some program, with the end of the source
behind the program.  The parser reports first the token with which the source stops being viable.

* `Grammar.Viable`: this, for the tokens of a beginning.
* `Grammar.viable_end_iff`: the end of the source is viable behind a whole program only.
* `Parser.exists_front`: the first report comes where the source is still viable, and not where
  it goes on as a given program does.
* `Scanner.program_first`: the first report is about the first token that is not viable.
-/

namespace Tiny

open Grammar Phrases

namespace Grammar

/-! ### Viable beginnings -/

/-- The tokens of a program.  They are tokens that a source can have, so that numbers are written
with digits; they are known, and its numbers fit a machine word, by the grammar. -/
def Sentence (tokens : List Token) : Prop :=
  (∀ token ∈ tokens, token.Lexical) ∧ ∃ d : Sequence, d.tokens = tokens

/-- The tokens with which the source of some program begins, its end included. -/
def Viable (front : List Token) : Prop :=
  ∃ sentence last, Sentence sentence ∧ last.kind = .endOfFile ∧ front <+: sentence ++ [last]

theorem Viable.mono {front front' : List Token} (h : Viable front)
    (hPrefix : front' <+: front) : Viable front' := by
  obtain ⟨sentence, last, hSentence, hLast, hFront⟩ := h
  exact ⟨sentence, last, hSentence, hLast, hPrefix.trans hFront⟩

theorem viable_of_append {front rest : List Token} (h : Sentence (front ++ rest)) :
    Viable front := by
  refine ⟨front ++ rest, ⟨.endOfFile, "", 1⟩, h, rfl, ?_⟩
  rw [List.append_assoc]
  exact List.prefix_append front _

theorem viable_nil : Viable [] := by
  obtain ⟨sentence, ⟨d, hd⟩, known⟩ := Parser.inhabited_sequence
  have hSentence : Sentence ([] ++ sentence) := ⟨known, d, hd⟩
  exact viable_of_append hSentence

/-- **The end of the source** may come behind a whole program, and nowhere else. -/
theorem viable_end_iff {tokens : List Token} {last : Token} (hLast : last.kind = .endOfFile) :
    Viable (tokens ++ [last]) ↔ Sentence tokens := by
  constructor
  · rintro ⟨sentence, last', hSentence, -, rest, hRest⟩
    rcases List.eq_nil_or_concat rest with rfl | ⟨others, final, rfl⟩
    · rw [List.append_nil] at hRest
      rw [(List.append_inj' hRest rfl).1]
      exact hSentence
    · -- the end would be one of the tokens of a program
      rw [List.concat_eq_append, ← List.append_assoc] at hRest
      have hTokens := (List.append_inj' hRest rfl).1
      have member : last ∈ sentence := by
        rw [← hTokens]
        simp
      exact absurd hLast (hSentence.1 last member).1
  · intro hSentence
    exact ⟨tokens, last, hSentence, hLast, List.prefix_rfl⟩

theorem viable_take_le {source : List Token} {n m : Nat} (hn : ¬ Viable (source.take (n + 1)))
    (hm : Viable (source.take m)) : m ≤ n := by
  refine Nat.le_of_not_lt fun h => hn (hm.mono ?_)
  exact List.take_prefix_take_left h

end Grammar

/-! ### Programs as streams -/

namespace Spells

variable {stream stream' : Nat → Token} {i j q : Nat} {tokens : List Token}

theorem iff_getElem? : Spells stream i tokens j ↔
    j = i + tokens.length ∧ ∀ n < tokens.length, tokens[n]? = some (stream (i + n)) := by
  induction tokens generalizing i with
  | nil => exact ⟨fun h => ⟨h.symm, fun n hn => nomatch hn⟩, fun h => h.1.symm⟩
  | cons token tokens ih =>
    rw [Spells, ih, List.length_cons, Nat.forall_lt_succ_left]
    simp only [List.getElem?_cons_zero, List.getElem?_cons_succ, Nat.add_zero, Option.some.injEq,
      Nat.add_assoc, Nat.add_comm 1]
    exact ⟨fun ⟨h, hj, hTokens⟩ => ⟨hj, h.symm, hTokens⟩,
      fun ⟨hj, h, hTokens⟩ => ⟨h.symm, hj, hTokens⟩⟩

theorem take (h : Spells stream 0 tokens j) (hq : q ≤ j) : Spells stream 0 (tokens.take q) q := by
  have hLength := h.eq_add
  rw [← List.take_append_drop q tokens] at h
  obtain ⟨m, hFront, -⟩ := h.exists_of_append
  have hm := hFront.eq_add
  rw [List.length_take] at hm
  obtain rfl : m = q := by omega
  exact hFront

/-- Two streams with the same tokens agree. -/
theorem agree (h : Spells stream 0 tokens j) (h' : Spells stream' 0 tokens j) {n : Nat}
    (hn : n < j) : stream' n = stream n := by
  obtain ⟨rfl, hTokens⟩ := iff_getElem?.mp h
  rw [Nat.zero_add] at hn
  have hSame := ((iff_getElem?.mp h').2 n hn).symm.trans (hTokens n hn)
  rw [Nat.zero_add] at hSame
  exact Option.some.inj hSame

end Spells

theorem Ordinary.lexical {stream : Nat → Token} {k n : Nat} (ordinary : Ordinary stream k)
    (h : n < k) : (stream n).Lexical :=
  ⟨fun hEnd => Nat.not_le_of_lt h ((ordinary.ends n).mp hEnd), ordinary.digits n⟩

theorem spells_getD (tokens : List Token) (last : Token) :
    Spells (tokens.getD · last) 0 (tokens ++ [last]) (tokens.length + 1) := by
  have h : Spells (tokens.getD · last) 0 tokens tokens.length := by
    refine Spells.iff_getElem?.mpr ⟨(Nat.zero_add _).symm, fun n hn => ?_⟩
    rw [Nat.zero_add, List.getD_eq_getElem _ _ hn, List.getElem?_eq_getElem hn]
  exact h.append ⟨List.getD_eq_default _ _ (Nat.le_refl _), rfl⟩

/-- The tokens of a source, and then its end. -/
theorem ordinary_getD {tokens : List Token} {last : Token}
    (known : ∀ token ∈ tokens, token.Lexical) (hLast : last.kind = .endOfFile) :
    Ordinary (tokens.getD · last) tokens.length := by
  have hCases : ∀ i, (i < tokens.length ∧ (tokens.getD i last).Lexical) ∨
      (tokens.length ≤ i ∧ tokens.getD i last = last) := by
    intro i
    rcases Nat.lt_or_ge i tokens.length with h | h
    · refine .inl ⟨h, ?_⟩
      rw [List.getD_eq_getElem _ _ h]
      exact known _ (List.getElem_mem h)
    · exact .inr ⟨h, List.getD_eq_default _ _ h⟩
  refine ⟨fun i => ?_, fun i hKind => ?_⟩
  · rcases hCases i with ⟨h, lexical⟩ | ⟨h, hEq⟩
    · exact ⟨fun hEnd => absurd hEnd lexical.1, fun hi => absurd h (Nat.not_lt_of_le hi)⟩
    · exact ⟨fun _ => h, fun _ => by rw [hEq, hLast]⟩
  · rcases hCases i with ⟨-, lexical⟩ | ⟨-, hEq⟩
    · exact lexical.2 hKind
    · rw [hEq, hLast] at hKind
      exact nomatch hKind

/-! ### The first report -/

namespace Parser

variable {stream : Nat → Token} {tokens : List Token} {tree : Program} {found : Diagnostics}
  {m : Nat}

/-- The first report comes where the source is still viable, and not where it goes on as some given
program does. -/
theorem exists_front (ordinary : Ordinary stream tokens.length)
    (hSpells : Spells stream 0 tokens tokens.length)
    (hServe : ∀ bound, tokens.length + 1 < bound →
      Consumer.serve stream (parse bound) 0 = .ok ((tree, found), m))
    (hFound : found ≠ #[]) {sentence : List Token} {last : Token} (hSentence : Sentence sentence)
    (hLast : last.kind = .endOfFile) :
    ∃ q first, (tokens ++ [stream tokens.length])[q]? = some (stream q) ∧
      Viable ((tokens ++ [stream tokens.length]).take q) ∧
      ¬ (tokens ++ [stream tokens.length]).take (q + 1) <+: sentence ++ [last] ∧
      found[0]? = some first ∧ Blames (stream q) first := by
  obtain ⟨bound, hBound, hBound'⟩ : ∃ bound, tokens.length + 1 < bound ∧
      sentence.length + 1 < bound := ⟨tokens.length + sentence.length + 2, by omega, by omega⟩
  obtain ⟨w, rest, q, first, read, ⟨d, hd⟩, known, blames, insists⟩ :=
    exists_first ordinary (hServe bound hBound) hFound
  -- what was read holds no end
  have hq : q ≤ tokens.length := by
    refine Nat.le_of_not_lt fun h => ?_
    have member : stream tokens.length ∈ d.tokens := by
      rw [hd]
      exact List.mem_append_left _ (read.mem (Nat.zero_le _) h)
    exact (d.known _ member).1 ((ordinary.ends _).mpr (Nat.le_refl _))
  have hSource : Spells stream 0 (tokens ++ [stream tokens.length]) (tokens.length + 1) :=
    hSpells.append ⟨rfl, rfl⟩
  have hFront : (tokens ++ [stream tokens.length]).take q = w :=
    (hSource.take (Nat.le_succ_of_le hq)).unique read
  refine ⟨q, first, ?_, ?_, fun hPrefix => ?_, ?_, blames⟩
  · have := (Spells.iff_getElem?.mp hSource).2 q (by simpa using Nat.lt_succ_of_le hq)
    rwa [Nat.zero_add] at this
  · rw [hFront]
    refine viable_of_append ⟨List.forall_mem_append.mpr ⟨fun token member => ?_, known⟩, d, hd⟩
    obtain ⟨n, hn, rfl⟩ := read.exists_of_mem member
    exact ordinary.lexical (Nat.lt_of_lt_of_le hn hq)
  · -- the report would be made for the given program, too
    have ordinary' := ordinary_getD hSentence.1 hLast
    obtain ⟨d', hd'⟩ := hSentence.2
    have hSentence' := spells_getD sentence last
    obtain ⟨others, hOthers⟩ := hPrefix
    obtain ⟨n, hHead, hEnd, hn⟩ := hSentence'.exists_of_append
    obtain rfl : sentence.length = n := Nat.succ.inj hn.symm
    rw [← hOthers] at hSentence'
    obtain ⟨q', hTaken, -⟩ := hSentence'.exists_of_append
    have hHere := hSource.take (Nat.succ_le_succ hq)
    obtain rfl : q' = q + 1 := hTaken.eq_add.trans hHere.eq_add.symm
    obtain ⟨tree', found', m', hServe', hIff, -⟩ := serve_parse_iff ordinary' hBound'
    have hQuiet : found' = #[] := hIff.mpr ⟨d', by rw [hd']; exact hHead⟩
    have hFirst := insists _ _ ordinary' (fun n hn => hHere.agree hTaken (Nat.lt_succ_of_le hn))
      tree' found' m' hServe'
    rw [hQuiet] at hFirst
    exact nomatch hFirst
  · exact insists stream _ ordinary (fun _ _ => rfl) tree found m (hServe bound hBound)

/-- The first report is about the first token that is not viable. -/
theorem exists_cut (ordinary : Ordinary stream tokens.length)
    (hSpells : Spells stream 0 tokens tokens.length)
    (hServe : ∀ bound, tokens.length + 1 < bound →
      Consumer.serve stream (parse bound) 0 = .ok ((tree, found), m))
    (hFound : found ≠ #[]) :
    ∃ n first, (tokens ++ [stream tokens.length])[n]? = some (stream n) ∧
      Viable ((tokens ++ [stream tokens.length]).take n) ∧
      ¬ Viable ((tokens ++ [stream tokens.length]).take (n + 1)) ∧
      found[0]? = some first ∧ Blames (stream n) first := by
  have hLast := (ordinary.ends _).mpr (Nat.le_refl tokens.length)
  have hFront := fun {sentence : List Token} {last : Token} =>
    @exists_front stream tokens tree found m ordinary hSpells hServe hFound sentence last
  generalize hSource : tokens ++ [stream tokens.length] = source at hFront ⊢
  have hNot : ¬ Viable (source.take source.length) := by
    rw [List.take_length, ← hSource, viable_end_iff hLast]
    intro hSentence
    obtain ⟨q, -, -, -, hPrefix, -⟩ := hFront hSentence hLast
    rw [hSource] at hPrefix
    exact hPrefix (List.take_prefix _ _)
  obtain ⟨n, hViable, hn⟩ := Nat.exists_not_and_succ_of_not_zero_of_exists
    (p := fun n => ¬ Viable (source.take n)) (not_not_intro viable_nil) ⟨_, hNot⟩
  obtain ⟨sentence, last, hSentence, hEnd, hPrefix⟩ := not_not.mp hViable
  obtain ⟨q, first, hToken, hHere, hBehind, hFirst, blames⟩ := hFront hSentence hEnd
  have hLe : q ≤ n := viable_take_le hn hHere
  have hGe : n ≤ q := by
    refine Nat.le_of_not_lt fun h => hBehind ?_
    exact (List.take_prefix_take_left h).trans hPrefix
  obtain rfl := Nat.le_antisymm hLe hGe
  exact ⟨q, first, hToken, hHere, hn, hFirst, blames⟩

end Parser

/-- **Errors are found as early as possible.**  If something is reported for a source, then there is
exactly one token such that the tokens before it are viable and those up to it are not, where the
end of the source is the last token.  The first report is on the line of that token.  It is lexical,
and shows the token, if the token is unknown, and about the grammar if not. -/
theorem Scanner.program_first (bytes : List UInt8) (written : ByteArray) (options : Options) :
    let scanner : Scanner := { feed := .ofBytes bytes, listing := { written }, options }
    ∃ tokens last drained tree found parsed,
      Scanner.drain scanner.tokenBound scanner = .ok (tokens ++ [last]) drained ∧
      last.kind = .endOfFile ∧ (∀ token ∈ tokens, token.kind ≠ .endOfFile) ∧
      Scanner.program scanner = .ok (tree, found) parsed ∧
      (found ≠ #[] → ∃ n token first,
        (tokens ++ [last])[n]? = some token ∧ found[0]? = some first ∧
        Viable ((tokens ++ [last]).take n) ∧ ¬ Viable ((tokens ++ [last]).take (n + 1)) ∧
        (∀ n', Viable ((tokens ++ [last]).take n') →
          ¬ Viable ((tokens ++ [last]).take (n' + 1)) → n' = n) ∧
        first.line = token.line ∧
        (first.concern = .lexical ∧ first.text = token.lexeme ↔ token.kind = .unknown) ∧
        (first.concern = .grammar ↔ token.kind ≠ .unknown)) := by
  intro scanner
  have quiet : scanner.Quiet := ⟨Feed.unfailing_ofBytes bytes, rfl⟩
  obtain ⟨tokens, hBound, ordinary, hSpells, known, hDrain⟩ := exists_tokens quiet
  obtain ⟨tree, found, asked, -, hServe⟩ := Parser.exists_serve_parse ordinary
  have hParse := hServe (scanner.tokenBound + 1) (Nat.succ_lt_succ hBound)
  refine ⟨tokens, scanner.upcoming tokens.length, _, tree, found, _, hDrain,
    (ordinary.ends _).mpr (Nat.le_refl _), known, runOn_of_serve quiet hParse, fun hFound => ?_⟩
  obtain ⟨n, first, hToken, hHere, hBehind, hFirst, blames⟩ :=
    Parser.exists_cut ordinary hSpells hServe hFound
  refine ⟨n, _, first, hToken, hFirst, hHere, hBehind, fun n' hHere' hBehind' => ?_, blames.line,
    blames.lexical_iff, blames.grammar_iff⟩
  exact Nat.le_antisymm (viable_take_le hBehind hHere') (viable_take_le hBehind' hHere)

/-- The bytes of `repeat`, `write`, `2147483648` and `end`, each on a line of its own. -/
def oversizedSource : List UInt8 :=
  [114, 101, 112, 101, 97, 116, 10, 119, 114, 105, 116, 101, 10, 50, 49, 52, 55, 52, 56, 51, 54,
   52, 56, 10, 101, 110, 100]

/-- The tokens of these bytes. -/
def oversizedTokens : List Token :=
  [⟨.keyword .kwRepeat, "repeat", 1⟩, ⟨.keyword .kwWrite, "write", 2⟩, ⟨.number, "2147483648", 3⟩,
   ⟨.keyword .kwEnd, "end", 4⟩, ⟨.endOfFile, "", 4⟩]

/-- What is reported about them. -/
def oversizedReports : Diagnostics :=
  #[⟨.grammar, 3, "constant out of range -> NUM, val= 2147483648"⟩,
    ⟨.grammar, 4, "unexpected token -> reserved word: end"⟩,
    ⟨.grammar, 4, "unexpected token -> reserved word: end"⟩]

theorem Scanner.program_oversized :
    ∃ tree parsed, program (start oversizedSource) = .ok (tree, oversizedReports) parsed :=
  ⟨_, _, by cbv⟩

theorem Scanner.drain_oversized :
    ∃ drained, drain (start oversizedSource).tokenBound (start oversizedSource) =
      .ok oversizedTokens drained :=
  ⟨_, by cbv⟩

/-- The parser has moved past the number when it reports it, but nothing was reported before: the
number is the first token that is not viable. -/
theorem Scanner.program_first_oversized :
    (∃ tree parsed, program (start oversizedSource) = .ok (tree, oversizedReports) parsed) ∧
      oversizedReports ≠ #[] ∧
      Viable (oversizedTokens.take 2) ∧ ¬ Viable (oversizedTokens.take 3) := by
  obtain ⟨tree', parsed', hParse'⟩ := program_oversized
  obtain ⟨drained', hDrain'⟩ := drain_oversized
  obtain ⟨tokens, last, drained, tree, found, parsed, hDrain, -, -, hParse, hFirst⟩ :=
    program_first oversizedSource ByteArray.empty {}
  obtain ⟨hTokens, -⟩ := ok_inj (hDrain.symm.trans hDrain')
  obtain ⟨hResult, -⟩ := ok_inj (hParse.symm.trans hParse')
  obtain ⟨-, rfl⟩ := Prod.mk.inj hResult
  rw [hTokens] at hFirst
  have hSome : oversizedReports ≠ #[] := by decide
  obtain ⟨n, token, first, hToken, hReport, hHere, hBehind, -, hLine, -⟩ := hFirst hSome
  obtain rfl := Option.some.inj hReport
  -- no other token is on the third line
  have only : ∀ entry ∈ oversizedTokens.zipIdx, 3 = entry.1.line → entry.2 = 2 := by decide
  obtain rfl := only (token, n) (List.mem_zipIdx_iff_getElem?.mpr hToken) hLine
  exact ⟨⟨tree', parsed', hParse'⟩, hSome, hHere, hBehind⟩

end Tiny
