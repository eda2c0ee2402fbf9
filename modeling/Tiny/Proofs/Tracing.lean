import Tiny.Proofs.Termination

/-!
# Where the first report is made

A part of the parser reads the phrases of a rule of the grammar, or of a part of a rule.  Up to its
first report it reads something with which such a phrase begins, and the report is about the token
behind.  Whatever comes behind that token, the report is made.

* `Traced`: this, for a part of the parser at some place of a stream.
* `Traces.bind`: two parts, one after the other, read the phrases of the first, followed by those of
  the second.
* `traces_expression`, `traces_sequence`: the parser reads the phrases of the grammar.
* `exists_first`: where the parser makes its first report.
-/

namespace Tiny

/-! ### Consumers know nothing but what they were served -/

namespace Consumer

variable {α : Type} {stream stream' : Nat → Token} {consumer : Consumer α} {x : α} {i m : Nat}

theorem le_of_serve (h : serve stream consumer i = .ok (x, m)) : i ≤ m := by
  induction consumer generalizing i with
  | done result =>
    obtain ⟨-, rfl⟩ := Prod.mk.inj (Except.ok.inj h)
    exact Nat.le_refl i
  | ask next ih => exact Nat.le_of_succ_le (ih _ h)
  | fail fault => exact nomatch h

theorem serve_congr (h : serve stream consumer i = .ok (x, m))
    (agree : ∀ n < m, stream' n = stream n) : serve stream' consumer i = .ok (x, m) := by
  induction consumer generalizing i with
  | done result => exact h
  | ask next ih =>
    have hi : i < m := le_of_serve (i := i + 1) h
    rw [serve, agree i hi]
    exact ih _ h
  | fail fault => exact nomatch h

end Consumer

theorem Spells.le {stream : Nat → Token} {i j : Nat} {tokens : List Token}
    (h : Spells stream i tokens j) : i ≤ j := by
  have := h.eq_add
  omega

/-! ### Phrases -/

/-- A set of phrases, where a phrase is a list of tokens. -/
abbrev Phrases := List Token → Prop

namespace Phrases

variable {L M : Phrases}

/-- The phrases of a rule, given the tokens of its derivations. -/
def Of {δ : Type} (tokens : δ → List Token) : Phrases :=
  fun w => ∃ d, tokens d = w

/-- Phrases that are a token of some kind. -/
def One (kind : TokenKind) : Phrases :=
  fun w => ∃ lexed : Grammar.Lexed kind, w = [lexed.token]

/-- Phrases of the first set, followed by phrases of the second. -/
def Then (L M : Phrases) : Phrases :=
  fun w => ∃ a b, L a ∧ M b ∧ a ++ b = w

/-- There is a phrase that a source can have. -/
def Inhabited (L : Phrases) : Prop :=
  ∃ w, L w ∧ ∀ token ∈ w, token.Lexical

theorem Inhabited.then (hL : L.Inhabited) (hM : M.Inhabited) : (L.Then M).Inhabited := by
  obtain ⟨a, ha, knownA⟩ := hL
  obtain ⟨b, hb, knownB⟩ := hM
  exact ⟨a ++ b, ⟨a, b, ha, hb, rfl⟩, List.forall_mem_append.mpr ⟨knownA, knownB⟩⟩

theorem Inhabited.imp (hL : L.Inhabited) (h : ∀ w, L w → M w) : M.Inhabited := by
  obtain ⟨w, hw, known⟩ := hL
  exact ⟨w, h w hw, known⟩

theorem inhabited_of_nil (h : L []) : L.Inhabited :=
  ⟨[], h, fun _ member => nomatch member⟩

theorem inhabited_one (kind : TokenKind) (h : kind ≠ .endOfFile ∧ kind ≠ .number) :
    (One kind).Inhabited := by
  refine ⟨[⟨kind, "", 1⟩], ⟨⟨⟨kind, "", 1⟩, rfl⟩, rfl⟩, ?_⟩
  intro token member
  rw [List.mem_singleton.mp member]
  exact Token.lexical_mk h "" 1

end Phrases

namespace Parser

open Grammar Phrases

/-! ### Reports that are made in any case -/

/-- The diagnostic is about the token: it is lexical, and shows the token, if that is unknown, and
about the grammar if not. -/
structure Blames (token : Token) (diagnostic : Diagnostic) : Prop where
  line : diagnostic.line = token.line
  lexical : token.kind = .unknown → diagnostic.concern = .lexical ∧ diagnostic.text = token.lexeme
  grammar : token.kind ≠ .unknown → diagnostic.concern = .grammar

theorem Blames.lexical_iff {token : Token} {diagnostic : Diagnostic} (h : Blames token diagnostic) :
    diagnostic.concern = .lexical ∧ diagnostic.text = token.lexeme ↔ token.kind = .unknown := by
  refine ⟨fun hLexical => Decidable.byContradiction fun hKind => ?_, h.lexical⟩
  exact nomatch hLexical.1.symm.trans (h.grammar hKind)

theorem Blames.grammar_iff {token : Token} {diagnostic : Diagnostic} (h : Blames token diagnostic) :
    diagnostic.concern = .grammar ↔ token.kind ≠ .unknown := by
  refine ⟨fun hGrammar hKind => ?_, h.grammar⟩
  exact nomatch hGrammar.symm.trans (h.lexical hKind).1

theorem blames_grammar {token : Token} (h : token.kind ≠ .unknown) (text : String) :
    Blames token ⟨.grammar, token.line, text⟩ :=
  ⟨rfl, fun hKind => absurd hKind h, fun _ => rfl⟩

variable {α β : Type} {stream : Nat → Token} {i k : Nat} {L M : Phrases}

/-- The consumer, served from token `i` on, reports `first` before anything else, whatever the
tokens behind `q` are, unless it gives up. -/
def Insists (stream : Nat → Token) (consumer : Consumer (α × Lookahead)) (i : Nat)
    (found : Diagnostics) (q : Nat) (first : Diagnostic) : Prop :=
  ∀ stream' k', Ordinary stream' k' → (∀ n ≤ q, stream' n = stream n) → ∀ x state m,
    Consumer.serve stream' consumer i = .ok ((x, state), m) →
    ∃ more, state.diagnostics = found.push first ++ more

/-- How far a part of the parser came: it read a phrase without a report, or it read the beginning
of a phrase and then reported the token behind. -/
inductive Trace (stream : Nat → Token) (consumer : Consumer (α × Lookahead)) (i : Nat)
    (found : Diagnostics) (L : Phrases) (j : Nat) (new : Diagnostics) : Prop
  | silent (w : List Token) (quiet : new = #[]) (read : Spells stream i w j) (phrase : L w)
  | reported (w rest : List Token) (q : Nat) (first : Diagnostic) (read : Spells stream i w q)
      (phrase : L (w ++ rest)) (known : ∀ token ∈ rest, token.Lexical)
      (blames : Blames (stream q) first) (insists : Insists stream consumer (i + 1) found q first)

/-- The parser, looking at token `i`, moves to some token and leaves a trace, unless it gives
up. -/
def Traced (stream : Nat → Token) (parser : Parser α) (i : Nat) (L : Phrases) : Prop :=
  ∀ found x state m,
    Consumer.serve stream (parser ⟨stream i, found⟩) (i + 1) = .ok ((x, state), m) →
    ∃ j new, m = j + 1 ∧ state = ⟨stream j, found ++ new⟩ ∧
      Trace stream (parser ⟨stream i, found⟩) i found L j new

/-- The parser reads the given phrases, from any place of any ordinary stream. -/
def Traces (parser : Parser α) (L : Phrases) : Prop :=
  ∀ stream k, Ordinary stream k → ∀ i, Traced stream parser i L

theorem Trace.imp {consumer : Consumer (α × Lookahead)} {found new : Diagnostics} {j : Nat}
    (h : Trace stream consumer i found L j new) (hLM : ∀ w, L w → M w) :
    Trace stream consumer i found M j new := by
  cases h with
  | silent w quiet read phrase => exact .silent w quiet read (hLM w phrase)
  | reported w rest q first read phrase known blames insists =>
    exact .reported w rest q first read (hLM _ phrase) known blames insists

theorem Traced.imp {parser : Parser α} (h : Traced stream parser i L) (hLM : ∀ w, L w → M w) :
    Traced stream parser i M := by
  intro found x state m hServe
  obtain ⟨j, new, hm, hState, trace⟩ := h found x state m hServe
  exact ⟨j, new, hm, hState, trace.imp hLM⟩

theorem Traces.imp {parser : Parser α} (h : Traces parser L) (hLM : ∀ w, L w → M w) :
    Traces parser M :=
  fun stream k ordinary i => (h stream k ordinary i).imp hLM

theorem traced_pure (x : α) (h : L []) : Traced stream (pure x) i L := by
  intro found y state m hServe
  obtain ⟨hResult, rfl⟩ := Prod.mk.inj (Except.ok.inj hServe)
  obtain ⟨rfl, rfl⟩ := Prod.mk.inj hResult
  exact ⟨i, #[], rfl, by rw [Array.append_empty], .silent [] rfl rfl h⟩

theorem traced_exhausted : Traced stream (exhausted : Parser α) i L :=
  fun _ _ _ _ hServe => nomatch hServe

theorem traced_current_bind {f : Token → Parser α} (h : Traced stream (f (stream i)) i L) :
    Traced stream (current >>= f) i L :=
  h

/-- A token that is passed is the first one of the phrase. -/
theorem traced_advance_bind {f : Token → Parser α} (h : Traced stream (f (stream i)) (i + 1) M)
    (hLM : ∀ w, M w → L (stream i :: w)) : Traced stream (advance >>= f) i L := by
  intro found x state m hServe
  obtain ⟨j, new, hm, hState, trace⟩ := h found x state m hServe
  refine ⟨j, new, hm, hState, ?_⟩
  cases trace with
  | silent w quiet read phrase => exact .silent (stream i :: w) quiet ⟨rfl, read⟩ (hLM w phrase)
  | reported w rest q first read phrase known blames insists =>
    refine .reported (stream i :: w) rest q first ⟨rfl, read⟩ (hLM _ phrase) known blames ?_
    intro stream' k' ordinary' agree x' state' m' hServe'
    refine insists stream' k' ordinary' agree x' state' m' ?_
    rw [← agree (i + 1) read.le]
    exact hServe'

/-- Behind a complaint about the token at hand, nothing is to be shown but that the parser moves
on. -/
theorem traced_complaint {parser next : Parser α} {diagnostic : Diagnostic}
    (ordinary : Ordinary stream k)
    (run : ∀ found, parser ⟨stream i, found⟩ = next ⟨stream i, found.push diagnostic⟩)
    (hNext : Traces next M) (blames : Blames (stream i) diagnostic) (inhabited : L.Inhabited) :
    Traced stream parser i L := by
  obtain ⟨rest, phrase, known⟩ := inhabited
  intro found x state m hServe
  rw [run] at hServe ⊢
  obtain ⟨j, new, hm, hState, -⟩ := hNext stream k ordinary i _ x state m hServe
  refine ⟨j, #[diagnostic] ++ new, hm, ?_,
    .reported [] rest i diagnostic rfl phrase known blames ?_⟩
  · rw [hState, ← Array.append_assoc]
    rfl
  · intro stream' k' ordinary' agree x' state' m' hServe'
    rw [← agree i (Nat.le_refl i)] at hServe'
    obtain ⟨_, more, -, hState', -⟩ := hNext stream' k' ordinary' i _ x' state' m' hServe'
    exact ⟨more, by rw [hState']⟩

section

variable {consumer : Consumer (α × Lookahead)} {f : α × Lookahead → Consumer (β × Lookahead)}
  {found : Diagnostics} {q : Nat} {first : Diagnostic}

/-- What comes behind work that needed no token behind `q`. -/
theorem Insists.after {x : α × Lookahead} {j : Nat} (h : Insists stream (f x) (j + 1) found q first)
    (hFirst : Consumer.serve stream consumer i = .ok (x, j + 1)) (hj : j ≤ q) :
    Insists stream (consumer >>= f) i found q first := by
  intro stream' k' ordinary' agree y state m hServe
  have hSame := Consumer.serve_congr hFirst fun n hn =>
    agree n (Nat.le_trans (Nat.le_of_lt_succ hn) hj)
  rw [Consumer.serve_bind hSame] at hServe
  exact h stream' k' ordinary' agree y state m hServe

/-- Work behind it does not change what was reported first. -/
theorem Insists.before (h : Insists stream consumer i found q first)
    (adds : ∀ stream' k', Ordinary stream' k' → (∀ n ≤ q, stream' n = stream n) →
      ∀ x n, Consumer.serve stream' consumer i = .ok (x, n) → ∀ y state m,
        Consumer.serve stream' (f x) n = .ok ((y, state), m) →
        ∃ more, state.diagnostics = x.2.diagnostics ++ more) :
    Insists stream (consumer >>= f) i found q first := by
  intro stream' k' ordinary' agree y state m hServe
  obtain ⟨⟨x, middle⟩, n, hFirst, hRest⟩ := Consumer.exists_of_serve_bind hServe
  obtain ⟨others, hOthers⟩ := h stream' k' ordinary' agree x middle n hFirst
  obtain ⟨more, hMore⟩ := adds stream' k' ordinary' agree _ n hFirst y state m hRest
  exact ⟨others ++ more, by rw [hMore, hOthers, Array.append_assoc]⟩

end

/-- Two parts of the parser, one after the other.  `P` holds where the first one stops. -/
theorem Traces.bind_of_lands {parser : Parser α} {f : α → Parser β} {P : TokenKind → Prop}
    (h : Traces parser L)
    (hLands : ∀ stream k, Ordinary stream k → ∀ i,
      Lands stream parser i fun j => P (stream j).kind)
    (hf : ∀ x stream k, Ordinary stream k → ∀ j, P (stream j).kind → Traced stream (f x) j M)
    (inhabited : M.Inhabited) : Traces (parser >>= f) (L.Then M) := by
  have hStops : ∀ stream k, Ordinary stream k → ∀ i found x state m,
      Consumer.serve stream (parser ⟨stream i, found⟩) (i + 1) = .ok ((x, state), m) →
      ∃ j new, m = j + 1 ∧ state = ⟨stream j, found ++ new⟩ ∧ P (stream j).kind ∧
        Trace stream (parser ⟨stream i, found⟩) i found L j new := by
    intro stream k ordinary i found x state m hServe
    obtain ⟨j, new, rfl, hState, trace⟩ := h stream k ordinary i found x state m hServe
    obtain ⟨j', hj', -, hP⟩ := hLands stream k ordinary i found x state _ hServe
    obtain rfl : j = j' := Nat.succ.inj hj'
    exact ⟨j, new, rfl, hState, hP, trace⟩
  intro stream k ordinary i found y state m hServe
  obtain ⟨⟨x, middle⟩, n, hFirst, hRest⟩ := Consumer.exists_of_serve_bind hServe
  obtain ⟨j, new, rfl, rfl, hP, trace⟩ := hStops stream k ordinary i found x middle n hFirst
  obtain ⟨l, more, rfl, rfl, trace'⟩ := hf x stream k ordinary j hP (found ++ new) y state m hRest
  refine ⟨l, new ++ more, rfl, by rw [Array.append_assoc], ?_⟩
  cases trace with
  | silent a quiet read phrase =>
    subst quiet
    rw [Array.append_empty] at hFirst trace'
    cases trace' with
    | silent b quiet' read' phrase' =>
      subst quiet'
      exact .silent (a ++ b) rfl (read.append read') ⟨a, b, phrase, phrase', rfl⟩
    | reported b rest q first read' phrase' known blames insists =>
      exact .reported (a ++ b) rest q first (read.append read')
        ⟨a, b ++ rest, phrase, phrase', (List.append_assoc a b rest).symm⟩ known blames
        (Insists.after insists hFirst read'.le)
  | reported a rest q first read phrase known blames insists =>
    obtain ⟨b, hb, knownB⟩ := inhabited
    refine .reported a (rest ++ b) q first read
      ⟨a ++ rest, b, phrase, hb, List.append_assoc a rest b⟩
      (List.forall_mem_append.mpr ⟨known, knownB⟩) blames (insists.before ?_)
    rintro stream' k' ordinary' agree ⟨x', middle'⟩ n' hFirst' y' state' m' hRest'
    rw [← agree i read.le] at hFirst'
    obtain ⟨j', new', rfl, rfl, hP', -⟩ := hStops stream' k' ordinary' i found x' _ n' hFirst'
    obtain ⟨_, more', -, rfl, -⟩ := hf x' stream' k' ordinary' j' hP' _ y' state' m' hRest'
    exact ⟨more', rfl⟩

theorem Traces.bind {parser : Parser α} {f : α → Parser β} (h : Traces parser L)
    (hf : ∀ x, Traces (f x) M) (inhabited : M.Inhabited) : Traces (parser >>= f) (L.Then M) := by
  refine h.bind_of_lands (P := fun _ => True) ?_
    (fun x stream k ordinary j _ => hf x stream k ordinary j) inhabited
  intro stream k ordinary i found x state m hServe
  obtain ⟨j, new, hm, rfl, -⟩ := h stream k ordinary i found x state m hServe
  exact ⟨j, hm, rfl, trivial⟩

theorem Traces.map {parser : Parser α} (h : Traces parser L) (g : α → β) :
    Traces (parser >>= fun x => pure (g x)) L := by
  have hPure : ∀ x, Traces (pure (g x) : Parser β) (· = []) :=
    fun x _ _ _ _ => traced_pure (g x) rfl
  refine (h.bind hPure (inhabited_of_nil rfl)).imp ?_
  rintro _ ⟨a, _, ha, rfl, rfl⟩
  rw [List.append_nil]
  exact ha

/-! ### Single tokens -/

/-- The diagnostic for a token that does not fit. -/
def complaint (token : Token) : Diagnostic :=
  if token.kind = .unknown then ⟨.lexical, token.line, token.lexeme⟩
  else ⟨.grammar, token.line, "unexpected token -> " ++ token.describe⟩

theorem blames_complaint (token : Token) : Blames token (complaint token) := by
  unfold complaint
  by_cases h : token.kind = .unknown
  · rw [if_pos h]
    exact ⟨rfl, fun _ => ⟨rfl, rfl⟩, fun hKind => absurd h hKind⟩
  · rw [if_neg h]
    exact blames_grammar h _

theorem unexpected_run (token : Token) (found : Diagnostics) :
    unexpected ⟨token, found⟩ = .done ((), ⟨token, found.push (complaint token)⟩) := by
  unfold complaint
  by_cases h : token.kind = .unknown
  · rw [if_pos h]
    exact congrFun (if_pos h) _
  · rw [if_neg h]
    exact congrFun (if_neg h) _

theorem traces_skip (x : α) : Traces (advance >>= fun _ => pure x) fun _ => True :=
  fun _ _ _ _ => traced_advance_bind (traced_pure (L := fun _ => True) x trivial) fun _ _ => trivial

theorem traced_unexpected_bind {f : Unit → Parser α} (ordinary : Ordinary stream k)
    (hNext : Traces (f ()) M) (inhabited : L.Inhabited) :
    Traced stream (unexpected >>= f) i L := by
  refine traced_complaint ordinary (fun found => ?_) hNext (blames_complaint (stream i)) inhabited
  change Consumer.bind (unexpected _) _ = _
  rw [unexpected_run]
  rfl

theorem traces_consume (kind : TokenKind) (h : kind ≠ .endOfFile ∧ kind ≠ .number) :
    Traces (consume kind) (One kind) := by
  intro stream k ordinary i
  refine traced_current_bind ?_
  by_cases hKind : (stream i).kind = kind
  · rw [if_pos hKind]
    refine traced_advance_bind (traced_pure (L := (· = [])) _ rfl) ?_
    rintro _ rfl
    exact ⟨⟨stream i, hKind⟩, rfl⟩
  · rw [if_neg hKind]
    exact traced_unexpected_bind ordinary (L := One kind) (M := (· = []))
      (fun _ _ _ _ => traced_pure none rfl) (inhabited_one kind h)

theorem traces_consumeName : Traces consumeName (One .identifier) :=
  (traces_consume _ (by decide)).map _

/-! ### Expressions -/

theorem inhabited_factor : (Of Factor.tokens).Inhabited := by
  refine (inhabited_one .identifier (by decide)).imp ?_
  rintro _ ⟨name, rfl⟩
  exact ⟨.name name, rfl⟩

theorem of_term {w : List Token} (h : ((Of Factor.tokens).Then (Of Products.tokens)) w) :
    Of Term.tokens w := by
  obtain ⟨_, _, ⟨first, rfl⟩, ⟨rest, rfl⟩, rfl⟩ := h
  exact ⟨.mk first rest, rfl⟩

theorem inhabited_term : (Of Term.tokens).Inhabited :=
  (inhabited_factor.then (inhabited_of_nil ⟨.none, rfl⟩)).imp fun _ => of_term

theorem of_simple {w : List Token} (h : ((Of Term.tokens).Then (Of Sums.tokens)) w) :
    Of Simple.tokens w := by
  obtain ⟨_, _, ⟨first, rfl⟩, ⟨rest, rfl⟩, rfl⟩ := h
  exact ⟨.mk first rest, rfl⟩

theorem inhabited_simple : (Of Simple.tokens).Inhabited :=
  (inhabited_term.then (inhabited_of_nil ⟨.none, rfl⟩)).imp fun _ => of_simple

/-- What comes behind the first sum of an expression: nothing, or a sign and a sum. -/
def Comparand : Phrases := fun w =>
  w = [] ∨ ∃ (sign : Sign comparisons) (right : Simple), w = sign.token :: right.tokens

theorem of_exp {w : List Token} (h : ((Of Simple.tokens).Then Comparand) w) :
    Of Exp.tokens w := by
  obtain ⟨_, _, ⟨left, rfl⟩, rfl | ⟨sign, right, rfl⟩, rfl⟩ := h
  · exact ⟨.simple left, (List.append_nil _).symm⟩
  · exact ⟨.comparison left sign right, rfl⟩

theorem inhabited_exp : (Of Exp.tokens).Inhabited :=
  (inhabited_simple.then (inhabited_of_nil (.inl rfl))).imp fun _ => of_exp

section

variable {inner : Parser Expression} (hInner : Traces inner (Of Exp.tokens))

include hInner

theorem traces_factor : Traces (factor inner) (Of Factor.tokens) := by
  intro stream k ordinary i
  refine traced_current_bind ?_
  split
  next hKind =>
    obtain ⟨hNil, hDigits⟩ := ordinary.digits i hKind
    rw [constant?_digits hNil hDigits]
    by_cases fits : Nat.ofDigitChars 10 (stream i).lexeme.toList 0 ≤ 2147483647
    · rw [if_pos fits]
      refine traced_advance_bind (traced_pure (L := (· = [])) _ rfl) ?_
      rintro _ rfl
      exact ⟨.number ⟨⟨stream i, hKind⟩, fits⟩, rfl⟩
    · rw [if_neg fits]
      -- the report comes after the token was passed, and is as if it had come before
      refine traced_complaint ordinary (fun found => rfl) (traces_skip _) ?_ inhabited_factor
      exact blames_grammar (by rw [hKind]; decide) _
  next hKind =>
    refine traced_advance_bind (traced_pure (L := (· = [])) _ rfl) ?_
    rintro _ rfl
    exact ⟨.name ⟨stream i, hKind⟩, rfl⟩
  next hKind =>
    have hClose := hInner.bind (fun e => (traces_consume .rightParen (by decide)).map
      fun _ => e) (inhabited_one _ (by decide))
    refine traced_advance_bind (hClose stream k ordinary (i + 1)) ?_
    rintro _ ⟨_, _, ⟨d, rfl⟩, ⟨right, rfl⟩, rfl⟩
    exact ⟨.parens ⟨stream i, hKind⟩ d right, rfl⟩
  next => exact traced_unexpected_bind ordinary (traces_skip _) inhabited_factor

omit hInner in
/-- A chain of operands, whatever they and their signs are. -/
theorem traces_chain {operator? : TokenKind → Option Operator} {operand : Parser Expression}
    (hOperand : Traces operand L) (stop : M [])
    (go : ∀ token op a b, operator? token.kind = some op → L a → M b → M (token :: (a ++ b)))
    (bound : Nat) (lhs : Expression) : Traces (chain operator? operand bound lhs) M := by
  induction bound generalizing lhs with
  | zero => exact fun _ _ _ _ => traced_exhausted
  | succ bound ih =>
    intro stream k ordinary i
    refine traced_current_bind ?_
    cases hOp : operator? (stream i).kind with
    | none => exact traced_pure lhs stop
    | some op =>
      have hRest := hOperand.bind
        (fun rhs => ih (.binary op lhs rhs (stream i).line .unresolved)) (inhabited_of_nil stop)
      refine traced_advance_bind (hRest stream k ordinary (i + 1)) ?_
      rintro _ ⟨a, b, ha, hb, rfl⟩
      exact go _ op a b hOp ha hb

theorem traces_term (bound : Nat) : Traces (term bound inner) (Of Term.tokens) := by
  have hFactor := traces_factor hInner
  have hChain := traces_chain (M := Of Products.tokens) hFactor ⟨.none, rfl⟩ (by
    rintro token op _ _ hOp ⟨f, rfl⟩ ⟨p, rfl⟩
    exact ⟨.more ⟨token, op, (tabled_products _ _).mp hOp⟩ f p, rfl⟩) bound
  exact (hFactor.bind hChain (inhabited_of_nil ⟨.none, rfl⟩)).imp fun _ => of_term

theorem traces_sum (bound : Nat) : Traces (sum bound inner) (Of Simple.tokens) := by
  have hTerm := traces_term hInner bound
  have hChain := traces_chain (M := Of Sums.tokens) hTerm ⟨.none, rfl⟩ (by
    rintro token op _ _ hOp ⟨t, rfl⟩ ⟨s, rfl⟩
    exact ⟨.more ⟨token, op, (tabled_sums _ _).mp hOp⟩ t s, rfl⟩) bound
  exact (hTerm.bind hChain (inhabited_of_nil ⟨.none, rfl⟩)).imp fun _ => of_simple

theorem traces_comparison (bound : Nat) : Traces (comparison bound inner) (Of Exp.tokens) := by
  have hSum := traces_sum hInner bound
  refine Traces.imp (hSum.bind (M := Comparand) ?_ (inhabited_of_nil (.inl rfl))) fun _ => of_exp
  intro lhs stream k ordinary i
  refine traced_current_bind ?_
  cases hOp : comparisonOperator? (stream i).kind with
  | none => exact traced_pure lhs (.inl rfl)
  | some op =>
    refine traced_advance_bind (hSum.map _ stream k ordinary (i + 1)) ?_
    rintro _ ⟨right, rfl⟩
    exact .inr ⟨⟨stream i, op, (tabled_comparisons _ _).mp hOp⟩, right, rfl⟩

end

theorem traces_expression (bound : Nat) : Traces (expression bound) (Of Exp.tokens) := by
  induction bound with
  | zero => exact fun _ _ _ _ => traced_exhausted
  | succ bound ih => exact traces_comparison ih bound

/-! ### Statements -/

theorem inhabited_stmt : (Of Stmt.tokens).Inhabited := by
  have hRead := inhabited_one (.keyword .kwRead) (by decide)
  refine (hRead.then (inhabited_one .identifier (by decide))).imp ?_
  rintro _ ⟨_, _, ⟨opening, rfl⟩, ⟨name, rfl⟩, rfl⟩
  exact ⟨.read opening name, rfl⟩

theorem of_sequence {w : List Token} (h : ((Of Stmt.tokens).Then (Of Rest.tokens)) w) :
    Of Sequence.tokens w := by
  obtain ⟨_, _, ⟨first, rfl⟩, ⟨rest, rfl⟩, rfl⟩ := h
  exact ⟨.mk first rest, rfl⟩

theorem inhabited_sequence : (Of Sequence.tokens).Inhabited :=
  (inhabited_stmt.then (inhabited_of_nil ⟨.none, rfl⟩)).imp fun _ => of_sequence

/-- What comes behind the first sequence of an `if`: an `end`, or an `else`, a sequence and an
`end`. -/
def Ending : Phrases := fun w =>
  One (.keyword .kwEnd) w ∨
    ∃ (turn : Lexed (.keyword .kwElse)) (no : Sequence) (closing : Lexed (.keyword .kwEnd)),
      w = turn.token :: (no.tokens ++ [closing.token])

theorem inhabited_ending : Ending.Inhabited :=
  (inhabited_one _ (by decide)).imp fun _ => .inl

section

variable {nested : Parser (List Statement)} (hNested : Traces nested (Of Sequence.tokens))

include hNested

theorem traces_ending (ifElse : List Statement → α) (ifThen : α) :
    Traces (do
      if (← current).kind = .keyword .kwElse then
        let _ ← advance
        let no ← nested
        let _ ← consume (.keyword .kwEnd)
        return ifElse no
      else
        let _ ← consume (.keyword .kwEnd)
        return ifThen) Ending := by
  have hEnd := traces_consume (.keyword .kwEnd) (by decide)
  intro stream k ordinary i
  refine traced_current_bind ?_
  by_cases hElse : (stream i).kind = .keyword .kwElse
  · rw [if_pos hElse]
    have hNo := hNested.bind (fun no => hEnd.map fun _ => ifElse no) (inhabited_one _ (by decide))
    refine traced_advance_bind (hNo stream k ordinary (i + 1)) ?_
    rintro _ ⟨_, _, ⟨no, rfl⟩, ⟨closing, rfl⟩, rfl⟩
    exact .inr ⟨⟨stream i, hElse⟩, no, closing, rfl⟩
  · rw [if_neg hElse]
    exact (hEnd.map _ stream k ordinary i).imp fun _ => .inl

theorem traces_statement {inner : Parser Expression} (hInner : Traces inner (Of Exp.tokens)) :
    Traces (statement inner nested) (Of Stmt.tokens) := by
  intro stream k ordinary i
  refine traced_current_bind ?_
  split
  next hKind =>
    have hYes := inhabited_sequence.then inhabited_ending
    refine traced_advance_bind (Traces.bind hInner (fun test =>
      (traces_consume _ (by decide)).bind (fun _ =>
        hNested.bind (fun yes => traces_ending hNested _ _) inhabited_ending) hYes)
      ((inhabited_one _ (by decide)).then hYes) stream k ordinary (i + 1)) ?_
    rintro _ ⟨_, _, ⟨test, rfl⟩, ⟨_, _, ⟨middle, rfl⟩, ⟨_, _, ⟨yes, rfl⟩, ending, rfl⟩, rfl⟩, rfl⟩
    rcases ending with ⟨closing, rfl⟩ | ⟨turn, no, closing, rfl⟩
    · exact ⟨.ifThen ⟨stream i, hKind⟩ test middle yes closing, rfl⟩
    · exact ⟨.ifElse ⟨stream i, hKind⟩ test middle yes turn no closing, rfl⟩
  next hKind =>
    refine traced_advance_bind (hNested.bind (fun body =>
      (traces_consume _ (by decide)).bind (fun _ => hInner.map _) inhabited_exp)
      ((inhabited_one _ (by decide)).then inhabited_exp) stream k ordinary (i + 1)) ?_
    rintro _ ⟨_, _, ⟨body, rfl⟩, ⟨_, _, ⟨closing, rfl⟩, ⟨test, rfl⟩, rfl⟩, rfl⟩
    exact ⟨.loop ⟨stream i, hKind⟩ body closing test, rfl⟩
  next hKind =>
    refine traced_advance_bind ((traces_consume _ (by decide)).bind (fun _ => hInner.map _)
      inhabited_exp stream k ordinary (i + 1)) ?_
    rintro _ ⟨_, _, ⟨sign, rfl⟩, ⟨value, rfl⟩, rfl⟩
    exact ⟨.assign ⟨stream i, hKind⟩ sign value, rfl⟩
  next hKind =>
    refine traced_advance_bind (traces_consumeName.map _ stream k ordinary (i + 1)) ?_
    rintro _ ⟨name, rfl⟩
    exact ⟨.read ⟨stream i, hKind⟩ name, rfl⟩
  next hKind =>
    refine traced_advance_bind (hInner.map _ stream k ordinary (i + 1)) ?_
    rintro _ ⟨value, rfl⟩
    exact ⟨.write ⟨stream i, hKind⟩ value, rfl⟩
  next => exact traced_unexpected_bind ordinary (traces_skip _) inhabited_stmt

end

theorem traces_more {one : Parser (Option Statement)} (hOne : Traces one (Of Stmt.tokens))
    (bound : Nat) (done : List Statement) : Traces (more one bound done) (Of Rest.tokens) := by
  induction bound generalizing done with
  | zero => exact fun _ _ _ _ => traced_exhausted
  | succ bound ih =>
    intro stream k ordinary i
    refine traced_current_bind ?_
    by_cases hEnds : endsSequence (stream i).kind = true
    · rw [if_pos hEnds]
      exact traced_pure done ⟨.none, rfl⟩
    · rw [if_neg hEnds]
      have hNil : (Of Rest.tokens).Inhabited := inhabited_of_nil ⟨.none, rfl⟩
      have hNext := (traces_consume .semicolon (by decide)).bind
        (fun _ => hOne.bind (fun next => ih (done ++ next.toList)) hNil)
        (inhabited_stmt.then hNil)
      refine (hNext stream k ordinary i).imp ?_
      rintro _ ⟨_, _, ⟨separator, rfl⟩, ⟨_, _, ⟨next, rfl⟩, ⟨rest, rfl⟩, rfl⟩, rfl⟩
      exact ⟨.more separator next rest, rfl⟩

theorem traces_sequence (bound : Nat) : Traces (sequence bound) (Of Sequence.tokens) := by
  induction bound with
  | zero => exact fun _ _ _ _ => traced_exhausted
  | succ bound ih =>
    have hOne := traces_statement ih (traces_expression bound)
    refine (hOne.bind (fun first => traces_more hOne bound _) ?_).imp fun _ => of_sequence
    exact inhabited_of_nil ⟨.none, rfl⟩

/-! ### Programs -/

/-- A sequence of statements stops at a token that ends it. -/
theorem lands_more_ends {one : Parser (Option Statement)}
    (hOne : ∀ i, Lands stream one i fun _ => True) (bound : Nat) (done : List Statement) (i : Nat) :
    Lands stream (more one bound done) i fun j => endsSequence (stream j).kind = true := by
  induction bound generalizing done i with
  | zero => exact lands_exhausted
  | succ bound ih =>
    refine lands_current_bind ?_
    by_cases hEnds : endsSequence (stream i).kind = true
    · rw [if_pos hEnds]
      exact lands_pure done hEnds
    · rw [if_neg hEnds]
      exact (lands_consume _).bind fun _ a _ => (hOne a).bind fun next b _ => ih _ b

theorem lands_sequence_ends (ordinary : Ordinary stream k) (bound i : Nat) :
    Lands stream (sequence bound) i fun j => endsSequence (stream j).kind = true := by
  cases bound with
  | zero => exact lands_exhausted
  | succ bound =>
    have hOne := lands_statement ordinary (lands_expression ordinary bound)
      (lands_sequence ordinary bound)
    exact (hOne i).bind fun first j _ =>
      lands_more_ends (fun a => (hOne a).imp fun _ _ => trivial) bound _ j

theorem traces_programHere (bound : Nat) : Traces (programHere bound) (Of Sequence.tokens) := by
  refine ((traces_sequence bound).bind_of_lands (M := (· = []))
    (P := fun kind => endsSequence kind = true)
    (fun _ _ ordinary i => lands_sequence_ends ordinary bound i)
    (fun tree stream k ordinary j hEnds => traced_current_bind ?_) (inhabited_of_nil rfl)).imp ?_
  · by_cases hEnd : (stream j).kind = .endOfFile
    · rw [if_neg (not_not_intro hEnd)]
      exact traced_pure tree rfl
    · rw [if_pos hEnd]
      have hKnown : (stream j).kind ≠ .unknown := by
        intro hUnknown
        rw [hUnknown] at hEnds
        exact nomatch hEnds
      exact traced_complaint ordinary (fun _ => rfl)
        (M := (· = [])) (fun _ _ _ _ => traced_pure tree rfl) (blames_grammar hKnown _)
        (inhabited_of_nil rfl)
  · rintro _ ⟨_, _, ⟨d, rfl⟩, rfl, rfl⟩
    exact ⟨d, (List.append_nil _).symm⟩

/-- **The first report.**  If the parser reports anything, then it reports first a token that comes
behind the beginning of a program, and would do so whatever came behind that token. -/
theorem exists_first {bound m : Nat} {tree : Program} {found : Diagnostics}
    (ordinary : Ordinary stream k)
    (h : Consumer.serve stream (parse bound) 0 = .ok ((tree, found), m)) (hFound : found ≠ #[]) :
    ∃ w rest q first, Spells stream 0 w q ∧ Of Sequence.tokens (w ++ rest) ∧
      (∀ token ∈ rest, token.Lexical) ∧ Blames (stream q) first ∧
      ∀ stream' k', Ordinary stream' k' → (∀ n ≤ q, stream' n = stream n) → ∀ tree' found' m',
        Consumer.serve stream' (parse bound) 0 = .ok ((tree', found'), m') →
        found'[0]? = some first := by
  obtain ⟨token, hProgram⟩ := exists_of_serve_parse h
  obtain ⟨j, new, -, hState, trace⟩ :=
    traces_programHere bound stream k ordinary 0 #[] tree _ m hProgram
  cases trace with
  | silent w quiet read phrase =>
    subst quiet
    exact absurd (Lookahead.mk.inj hState).2 hFound
  | reported w rest q first read phrase known blames insists =>
    refine ⟨w, rest, q, first, read, phrase, known, blames, ?_⟩
    intro stream' k' ordinary' agree tree' found' m' h'
    obtain ⟨token', hProgram'⟩ := exists_of_serve_parse h'
    rw [agree 0 (Nat.zero_le q)] at hProgram'
    obtain ⟨more, hMore⟩ := insists stream' k' ordinary' agree tree' _ m' hProgram'
    obtain rfl : found' = #[].push first ++ more := hMore
    rw [Array.getElem?_append_left (Nat.lt_succ_self 0)]
    rfl

end Parser

end Tiny
