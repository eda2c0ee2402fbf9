import Tiny.Tree.Parser

/-!
# Runs of the parser

The parser sees its tokens as a stream, from which `Consumer.serve` hands them out.  Two things are
said about a part of the parser that starts at some place of the stream:

* `Yields`: it gives this result, stops at this place and reports these diagnostics;
* `Reads`: it gives some result and stops not before some place; and if it reports nothing, then
  the result and the place are as they should be.

Both are put together along `>>=`, by `Yields.bind` and `Reads.bind`.
-/

namespace Tiny

/-! ### Consumers served from a stream -/

namespace Consumer

variable {α β : Type}

/-- Takes the tokens off a stream, from a place on.  Also gives the place of the next token. -/
def serve (stream : Nat → Token) : Consumer α → Nat → Except Fault (α × Nat)
  | .done result, i => .ok (result, i)
  | .ask next, i => serve stream (next (stream i)) (i + 1)
  | .fail fault, _ => .error fault

theorem serve_bind {stream : Nat → Token} {consumer : Consumer α} {f : α → Consumer β} {x : α}
    {i j : Nat} (h : serve stream consumer i = .ok (x, j)) :
    serve stream (consumer >>= f) i = serve stream (f x) j := by
  induction consumer generalizing i with
  | done result =>
    obtain ⟨rfl, rfl⟩ := Prod.mk.inj (Except.ok.inj h)
    rfl
  | ask next ih => exact ih _ h
  | fail fault => exact nomatch h

end Consumer

/-! ### A place in a stream of tokens -/

/-- The tokens stand in the stream from `i` up to `j`. -/
def Spells (stream : Nat → Token) (i : Nat) : List Token → Nat → Prop
  | [], j => i = j
  | token :: tokens, j => stream i = token ∧ Spells stream (i + 1) tokens j

namespace Spells

variable {stream : Nat → Token} {i j k : Nat} {a b : List Token}

theorem eq_add (h : Spells stream i a j) : j = i + a.length := by
  induction a generalizing i with
  | nil => exact h.symm
  | cons token a ih =>
    have := ih h.2
    rw [List.length_cons]
    omega

theorem append (ha : Spells stream i a j) (hb : Spells stream j b k) :
    Spells stream i (a ++ b) k := by
  induction a generalizing i with
  | nil =>
    obtain rfl : i = j := ha
    exact hb
  | cons token a ih => exact ⟨ha.1, ih ha.2⟩

theorem exists_of_append (h : Spells stream i (a ++ b) k) :
    ∃ j, Spells stream i a j ∧ Spells stream j b k := by
  induction a generalizing i with
  | nil => exact ⟨i, rfl, h⟩
  | cons token a ih =>
    obtain ⟨j, ha, hb⟩ := ih h.2
    exact ⟨j, ⟨h.1, ha⟩, hb⟩

/-- What stands between two places is determined. -/
theorem unique (ha : Spells stream i a j) (hb : Spells stream i b j) : a = b := by
  induction a generalizing i b with
  | nil =>
    have := hb.eq_add
    obtain rfl : i = j := ha
    exact (List.length_eq_zero_iff.mp (by omega)).symm
  | cons token a ih =>
    cases b with
    | nil =>
      have := ha.eq_add
      obtain rfl : i = j := hb
      rw [List.length_cons] at this
      omega
    | cons token' b => rw [← ha.1, ← hb.1, ih ha.2 hb.2]

theorem mem (h : Spells stream i a j) {n : Nat} (hi : i ≤ n) (hj : n < j) : stream n ∈ a := by
  induction a generalizing i with
  | nil =>
    obtain rfl : i = j := h
    omega
  | cons token a ih =>
    rcases Nat.eq_or_lt_of_le hi with rfl | hi
    · rw [h.1]
      exact List.mem_cons_self
    · exact List.mem_cons_of_mem _ (ih h.2 hi)

theorem exists_of_mem (h : Spells stream i a j) {token : Token} (member : token ∈ a) :
    ∃ n < j, stream n = token := by
  induction a generalizing i with
  | nil => exact nomatch member
  | cons first a ih =>
    rcases List.mem_cons.mp member with rfl | member
    · have := h.eq_add
      rw [List.length_cons] at this
      exact ⟨i, by omega, h.1⟩
    · exact ih h.2 member

end Spells

/-- A stream of tokens that ends at `k` and whose numbers are digits. -/
structure Ordinary (stream : Nat → Token) (k : Nat) : Prop where
  ends : ∀ i, (stream i).kind = .endOfFile ↔ k ≤ i
  digits : ∀ i, (stream i).kind = .number →
    (stream i).lexeme.toList ≠ [] ∧ ∀ c ∈ (stream i).lexeme.toList, c.isDigit = true

theorem Ordinary.lt_of_kind {stream : Nat → Token} {k i : Nat} (ordinary : Ordinary stream k)
    {kind : TokenKind} (h : (stream i).kind = kind) (hKind : kind ≠ .endOfFile) : i < k := by
  refine Nat.lt_of_not_le fun hk => hKind ?_
  rw [← h]
  exact (ordinary.ends i).mpr hk

/-! ### Results of the parser -/

namespace Parser

variable {stream : Nat → Token} {α β : Type} {i j k lo hi : Nat} {x : α} {y : β}
  {new more : Diagnostics}

/-- The parser, looking at token `i`, gives `x` and then looks at token `j`, with new
diagnostics. -/
def Yields (stream : Nat → Token) (parser : Parser α) (i : Nat) (x : α) (j : Nat)
    (new : Diagnostics) : Prop :=
  ∀ found, Consumer.serve stream (parser ⟨stream i, found⟩) (i + 1) =
    .ok ((x, ⟨stream j, found ++ new⟩), j + 1)

theorem yields_pure (x : α) : Yields stream (pure x) i x i #[] := by
  intro found
  rw [Array.append_empty]
  rfl

theorem Yields.bind {parser : Parser α} {f : α → Parser β} (h : Yields stream parser i x j new)
    (hf : Yields stream (f x) j y k more) : Yields stream (parser >>= f) i y k (new ++ more) := by
  intro found
  have hNext := hf (found ++ new)
  rw [Array.append_assoc] at hNext
  exact (Consumer.serve_bind (h found)).trans hNext

/-- A part of the parser gives one result. -/
theorem Yields.unique {parser : Parser α} {x' : α} {j' : Nat} {new' : Diagnostics}
    (h : Yields stream parser i x j new) (h' : Yields stream parser i x' j' new') :
    x = x' ∧ new = new' := by
  have hEq := Except.ok.inj ((h #[]).symm.trans (h' #[]))
  obtain ⟨hResult, -⟩ := Prod.mk.inj hEq
  obtain ⟨hx, hState⟩ := Prod.mk.inj hResult
  have hNew := (Lookahead.mk.inj hState).2
  rw [Array.empty_append, Array.empty_append] at hNew
  exact ⟨hx, hNew⟩

/-- Parts that report nothing. -/
theorem Yields.seq {parser : Parser α} {f : α → Parser β} (h : Yields stream parser i x j #[])
    (hf : Yields stream (f x) j y k #[]) : Yields stream (parser >>= f) i y k #[] :=
  h.bind hf

theorem yields_current_bind {f : Token → Parser α} :
    Yields stream (current >>= f) i x j new ↔ Yields stream (f (stream i)) i x j new :=
  Iff.rfl

theorem yields_advance_bind {f : Token → Parser α} :
    Yields stream (advance >>= f) i x j new ↔ Yields stream (f (stream i)) (i + 1) x j new :=
  Iff.rfl

theorem yields_report (diagnostic : Diagnostic) :
    Yields stream (report diagnostic) i () i #[diagnostic] :=
  fun _ => rfl

theorem yields_unexpected :
    ∃ diagnostic, Yields stream unexpected i () i #[diagnostic] := by
  by_cases h : (stream i).kind = .unknown
  · simp only [unexpected, yields_current_bind, if_pos h]
    exact ⟨_, yields_report _⟩
  · simp only [unexpected, yields_current_bind, if_neg h]
    exact ⟨_, yields_report _⟩

theorem yields_consume {kind : TokenKind} (h : (stream i).kind = kind) :
    Yields stream (consume kind) i (some (stream i)) (i + 1) #[] := by
  refine yields_current_bind.mpr ?_
  rw [if_pos h]
  exact yields_advance_bind.mpr (yields_pure _)

theorem yields_consumeName (h : (stream i).kind = .identifier) :
    Yields stream consumeName i (stream i).lexeme (i + 1) #[] :=
  (yields_consume h).seq (yields_pure _)

/-! ### Parts that read something -/

/-- The parser, looking at token `i`, gives something and then looks at a token not before `lo`.
If it reports nothing, then `D` holds of what it gives and of the place of that token. -/
def Reads (stream : Nat → Token) (parser : Parser α) (i lo : Nat) (D : α → Nat → Prop) : Prop :=
  ∃ x j new, Yields stream parser i x j new ∧ lo ≤ j ∧ (new = #[] → D x j)

variable {D : α → Nat → Prop} {E : β → Nat → Prop}

theorem reads_pure (hLo : lo ≤ i) (h : D x i) : Reads stream (pure x) i lo D :=
  ⟨x, i, #[], yields_pure x, hLo, fun _ => h⟩

theorem Reads.imp {parser : Parser α} {D' : α → Nat → Prop} (h : Reads stream parser i hi D)
    (hLo : lo ≤ hi) (hD : ∀ x j, D x j → D' x j) : Reads stream parser i lo D' := by
  obtain ⟨x, j, new, hYields, hHi, hx⟩ := h
  exact ⟨x, j, new, hYields, Nat.le_trans hLo hHi, fun hNew => hD x j (hx hNew)⟩

theorem Reads.bind {parser : Parser α} {f : α → Parser β} (h : Reads stream parser i lo D)
    (hf : ∀ x j, lo ≤ j → Reads stream (f x) j hi fun y k => D x j → E y k) :
    Reads stream (parser >>= f) i hi E := by
  obtain ⟨x, j, new, hYields, hLo, hx⟩ := h
  obtain ⟨y, k, more, hYields', hHi, hy⟩ := hf x j hLo
  refine ⟨y, k, new ++ more, hYields.bind hYields', hHi, fun hNew => ?_⟩
  obtain ⟨hNew, hMore⟩ := Array.append_eq_empty_iff.mp hNew
  exact hy hMore (hx hNew)

theorem reads_current_bind {f : Token → Parser α} :
    Reads stream (current >>= f) i lo D ↔ Reads stream (f (stream i)) i lo D :=
  Iff.rfl

theorem reads_advance_bind {f : Token → Parser α} :
    Reads stream (advance >>= f) i lo D ↔ Reads stream (f (stream i)) (i + 1) lo D :=
  Iff.rfl

/-- Behind a report there is nothing to be shown of a result. -/
theorem Yields.reads_bind {parser : Parser Unit} {f : Unit → Parser α} {diagnostic : Diagnostic}
    (reported : Yields stream parser i () i #[diagnostic])
    (h : Reads stream (f ()) i lo fun _ _ => True) : Reads stream (parser >>= f) i lo D := by
  obtain ⟨x, j, new, hYields, hLo, -⟩ := h
  refine ⟨x, j, #[diagnostic] ++ new, reported.bind hYields, hLo, fun hNew => ?_⟩
  exact absurd (Array.append_eq_empty_iff.mp hNew).1 (by simp)

theorem reads_unexpected_bind {f : Unit → Parser α}
    (h : Reads stream (f ()) i lo fun _ _ => True) :
    Reads stream (unexpected >>= f) i lo D := by
  obtain ⟨diagnostic, reported⟩ := @yields_unexpected stream i
  exact reported.reads_bind h

/-- A token that must come is passed, or reported. -/
theorem reads_consume (kind : TokenKind) : Reads stream (consume kind) i i fun token j =>
    (stream i).kind = kind ∧ token = some (stream i) ∧ j = i + 1 := by
  by_cases h : (stream i).kind = kind
  · exact ⟨_, i + 1, #[], yields_consume h, Nat.le_succ i, fun _ => ⟨h, rfl, rfl⟩⟩
  · refine reads_current_bind.mpr ?_
    rw [if_neg h]
    exact reads_unexpected_bind (reads_pure (Nat.le_refl i) trivial)

theorem reads_consumeName : Reads stream consumeName i i fun name j =>
    (stream i).kind = .identifier ∧ name = (stream i).lexeme ∧ j = i + 1 := by
  refine (reads_consume _).bind fun token j hj => reads_pure hj ?_
  rintro ⟨hKind, rfl, rfl⟩
  exact ⟨hKind, rfl, rfl⟩

end Parser

end Tiny
