import Tiny.Proofs.Lookahead
import Tiny.Proofs.Peeling

/-!
# The tokens of a source

A scanner that meets no failure gives tokens without end: those of the source, then the end of the
source again and again.

* `Scanner.Quiet`: no failure can be met.
* `next_quiet`: a token is taken, and the scanner stays quiet.
* `ordinary_upcoming`: the tokens to come are an ordinary stream, whose end is not farther away than
  the feed is long.
* `drain_run`, `runOn_of_serve`: draining a scanner and running a consumer on it take these tokens.
* `exists_tokens`: these facts together, for the tokens before the end.
-/

namespace Tiny

/-! ### Feeds and work without failures -/

/-- No read fails. -/
def Feed.Unfailing (feed : Feed) : Prop :=
  ∀ reason, .failure reason ∉ feed

theorem Feed.Unfailing.suffix {feed rest : Feed} (h : feed.Unfailing) (hRest : rest <:+ feed) :
    rest.Unfailing :=
  fun reason member => h reason (hRest.subset member)

theorem Feed.unfailing_ofBytes (bytes : List UInt8) : (Feed.ofBytes bytes).Unfailing := by
  intro reason h
  obtain ⟨line, -, h⟩ := List.mem_flatMap.mp h
  simp at h

namespace Scanner

/-- No failure can be met: no read fails, and the listing has no limit. -/
structure Quiet (scanner : Scanner) : Prop where
  unfailing : scanner.feed.Unfailing
  unlimited : scanner.listing.limit = none

/-- The scanner at the start of a source. -/
def start (bytes : List UInt8) : Scanner := { feed := .ofBytes bytes }

theorem quiet_start (bytes : List UInt8) : (start bytes).Quiet :=
  ⟨Feed.unfailing_ofBytes bytes, rfl⟩

/-- Work that succeeds if the listing has no limit, and leaves the end of a feed.  `D` holds of what
it gives and of the feed it leaves. -/
def Takes {α : Type} (work : Scan α) (feed : Feed) (D : α → Feed → Prop) : Prop :=
  ∀ scanner : Scanner, scanner.listing.limit = none →
    ∃ x after, work scanner = .ok x after ∧ after.listing.limit = none ∧ after.feed <:+ feed ∧
      D x after.feed

section

variable {α β : Type} {work : Scan α} {feed rest : Feed} {D E : α → Feed → Prop}

theorem Takes.imp (h : Takes work rest D) (hFeed : rest <:+ feed)
    (hD : ∀ x left, left <:+ rest → D x left → E x left) : Takes work feed E := by
  intro scanner hLimit
  obtain ⟨x, after, hRun, hAfter, hLeft, hx⟩ := h scanner hLimit
  exact ⟨x, after, hRun, hAfter, hLeft.trans hFeed, hD x _ hLeft hx⟩

theorem takes_goOn {x : α} (hFeed : rest <:+ feed) (h : D x rest) :
    Takes (do goOn rest; return x) feed D :=
  fun scanner hLimit => ⟨x, { scanner with feed := rest }, rfl, hLimit, hFeed, h⟩

theorem write_run {scanner : Scanner} (h : scanner.listing.limit = none) (text : String) :
    write text scanner = .ok () { scanner with listing := scanner.listing.add text } := by
  simp only [write, Focus.on, listingPart, Sink.write_of_unlimited h]

theorem takes_arrive {line : List UInt8} (h : Takes work feed D) :
    Takes (do arrive line rest; work) feed D := by
  intro scanner hLimit
  let arrived : Scanner := { scanner with feed := rest, lineno := scanner.lineno + 1 }
  have hArrive : arrive line rest scanner =
      (if arrived.options.echoSource then write (echoed arrived.lineno line) else pure ())
        arrived := rfl
  by_cases hEcho : arrived.options.echoSource = true
  · rw [if_pos hEcho] at hArrive
    rw [bind_of_ok (hArrive.trans (@write_run arrived hLimit _))]
    exact h _ hLimit
  · rw [if_neg hEcho] at hArrive
    rw [bind_of_ok (hArrive.trans rfl)]
    exact h _ hLimit

end

/-- Skipping takes everything, or stops at a byte and takes that too. -/
theorem takes_skip {feed : Feed} (unfailing : feed.Unfailing) (comment : Option Nat) :
    Takes (skip comment feed) feed fun found left =>
      (found.2 = none → left = []) ∧ (found.2 ≠ none → left.length < feed.length) := by
  induction feed generalizing comment with
  | nil =>
    intro scanner hLimit
    exact ⟨_, _, rfl, hLimit, List.suffix_rfl, fun _ => rfl, fun h => absurd rfl h⟩
  | cons reading rest ih =>
    have hSuffix := List.suffix_cons reading rest
    have hLater : ∀ comment, Takes (skip comment rest) (reading :: rest) fun found left =>
        (found.2 = none → left = []) ∧ (found.2 ≠ none → left.length < rest.length + 1) :=
      fun comment => (ih (unfailing.suffix hSuffix) comment).imp hSuffix
        fun found left _ h => ⟨h.1, fun hSome => Nat.lt_succ_of_lt (h.2 hSome)⟩
    cases reading with
    | failure reason => exact absurd List.mem_cons_self (unfailing reason)
    | line line => exact takes_arrive (hLater comment)
    | byte b =>
      cases comment with
      | some opened =>
        rw [skip]
        split
        · exact hLater none
        · exact hLater (some opened)
      | none =>
        intro scanner hLimit
        rw [skip, get_bind]
        split
        · exact hLater none scanner hLimit
        split
        · exact hLater _ scanner hLimit
        · refine ⟨_, _, rfl, hLimit, hSuffix, ?_⟩
          exact ⟨nofun, fun _ => Nat.lt_succ_self _⟩

/-- A run of bytes that satisfy `p`. -/
theorem takes_takeRun (p : UInt8 → Bool) {feed : Feed} (unfailing : feed.Unfailing) :
    Takes (takeRun p feed) feed fun run _ => ∀ b ∈ run, p b = true := by
  induction feed with
  | nil =>
    intro scanner hLimit
    exact ⟨_, _, rfl, hLimit, List.suffix_rfl, fun _ h => nomatch h⟩
  | cons reading rest ih =>
    have hSuffix := List.suffix_cons reading rest
    have hLater := ih (unfailing.suffix hSuffix)
    cases reading with
    | failure reason => exact absurd List.mem_cons_self (unfailing reason)
    | line line => exact takes_arrive (hLater.imp hSuffix fun _ _ _ h => h)
    | byte b =>
      rw [takeRun]
      split
      next hb =>
        intro scanner hLimit
        obtain ⟨run, after, hRun, hAfter, hLeft, hAll⟩ := hLater scanner hLimit
        refine ⟨b :: run, after, bind_of_ok hRun, hAfter, hLeft.trans hSuffix, ?_⟩
        exact List.forall_mem_cons.mpr ⟨hb, hAll⟩
      next => exact takes_goOn List.suffix_rfl fun _ h => nomatch h

theorem takes_takeByte (b : UInt8) {feed : Feed} (unfailing : feed.Unfailing) :
    Takes (takeByte b feed) feed fun _ _ => True := by
  induction feed with
  | nil => exact takes_goOn List.suffix_rfl trivial
  | cons reading rest ih =>
    have hSuffix := List.suffix_cons reading rest
    cases reading with
    | failure reason => exact absurd List.mem_cons_self (unfailing reason)
    | line line =>
      exact takes_arrive ((ih (unfailing.suffix hSuffix)).imp hSuffix fun _ _ _ h => h)
    | byte c =>
      rw [takeByte]
      split
      · exact takes_goOn hSuffix trivial
      · exact takes_goOn List.suffix_rfl trivial

/-! ### One token -/

end Scanner

namespace Token

/-- What is known of the tokens before the end: a number is written with digits. -/
def Lexical (token : Token) : Prop :=
  token.kind ≠ .endOfFile ∧ (token.kind = .number →
    token.lexeme.toList ≠ [] ∧ ∀ c ∈ token.lexeme.toList, c.isDigit = true)

theorem lexical_mk {kind : TokenKind} (h : kind ≠ .endOfFile ∧ kind ≠ .number) (lexeme : String)
    (line : Nat) : Lexical ⟨kind, lexeme, line⟩ :=
  ⟨h.1, fun hNumber => absurd hNumber h.2⟩

theorem isDigit_ofUInt8 {b : UInt8} (h : isDigitByte b = true) :
    (Char.ofUInt8 b).isDigit = true := by
  simp only [isDigitByte, Bool.and_eq_true, decide_eq_true_eq, UInt8.le_iff_toNat_le] at h
  simp only [Char.isDigit, Bool.and_eq_true, decide_eq_true_eq, UInt32.le_iff_toNat_le]
  exact h

theorem lexical_number {run : List UInt8} (hNil : run ≠ []) (h : ∀ b ∈ run, isDigitByte b = true)
    (line : Nat) : (ofRun (fun _ => .number) run line).Lexical := by
  unfold ofRun
  split
  · refine ⟨nofun, fun _ => ?_⟩
    simp only [lexemeOf, String.toList_ofList]
    refine ⟨fun hMap => hNil (List.map_eq_nil_iff.mp hMap), fun c hc => ?_⟩
    obtain ⟨b, hb, rfl⟩ := List.mem_map.mp hc
    exact isDigit_ofUInt8 (h b hb)
  · exact lexical_mk (by decide) _ line

theorem lexical_word (run : List UInt8) (line : Nat) : (ofRun .ofWord run line).Lexical := by
  unfold ofRun
  split
  · refine lexical_mk ?_ _ line
    unfold TokenKind.ofWord
    split <;> simp
  · exact lexical_mk (by decide) _ line

theorem lexical_byte (b : UInt8) (lexeme : String) (line : Nat) :
    Lexical ⟨.ofByte b, lexeme, line⟩ := by
  refine lexical_mk ?_ lexeme line
  unfold TokenKind.ofByte
  repeat' split
  all_goals decide

end Token

namespace Scanner

theorem token_run {scanner : Scanner} (quiet : scanner.Quiet) (line : Nat) (first : UInt8) :
    ∃ taken after, token line first scanner = .ok taken after ∧
      after.listing.limit = none ∧ after.feed <:+ scanner.feed ∧ taken.Lexical := by
  unfold token
  split
  next hDigit =>
    obtain ⟨run, after, hRun, hAfter, hLeft, hAll⟩ :=
      takes_takeRun isDigitByte quiet.unfailing scanner quiet.unlimited
    refine ⟨_, after, ?_, hAfter, hLeft, Token.lexical_number (List.cons_ne_nil first run)
      (List.forall_mem_cons.mpr ⟨hDigit, hAll⟩) line⟩
    rw [get_bind, bind_of_ok hRun]
    rfl
  next =>
    split
    · obtain ⟨run, after, hRun, hAfter, hLeft, -⟩ :=
        takes_takeRun isLetterByte quiet.unfailing scanner quiet.unlimited
      refine ⟨_, after, ?_, hAfter, hLeft, Token.lexical_word (first :: run) line⟩
      rw [get_bind, bind_of_ok hRun]
      rfl
    split
    · obtain ⟨matched, after, hRun, hAfter, hLeft, -⟩ :=
        takes_takeByte equalSign quiet.unfailing scanner quiet.unlimited
      rw [get_bind, bind_of_ok hRun]
      cases matched with
      | true => exact ⟨_, after, rfl, hAfter, hLeft, Token.lexical_mk (by decide) _ line⟩
      | false => exact ⟨_, after, rfl, hAfter, hLeft, Token.lexical_mk (by decide) _ line⟩
    · exact ⟨_, scanner, rfl, quiet.unlimited, List.suffix_rfl, Token.lexical_byte first _ line⟩

theorem trace_run {scanner : Scanner} (h : scanner.listing.limit = none) (text : String)
    (taken : Token) :
    ∃ listing : Sink, listing.limit = none ∧
      (do
        if (← get).options.traceScan then write text
        return taken : Scan Token) scanner = .ok taken { scanner with listing } := by
  by_cases hTrace : scanner.options.traceScan = true
  · refine ⟨scanner.listing.add text, h, ?_⟩
    rw [get_bind, if_pos hTrace, bind_of_ok (write_run h text)]
    rfl
  · refine ⟨scanner.listing, h, ?_⟩
    rw [get_bind, if_neg hTrace]
    rfl

/-- **A quiet scanner takes a token** and stays quiet.  There is less to come, or it was the end and
nothing is to come. -/
theorem next_quiet {scanner : Scanner} (quiet : scanner.Quiet) :
    ∃ taken after, next scanner = .ok taken after ∧ after.Quiet ∧
      ((taken.kind = .endOfFile ∧ after.feed = []) ∨
        (taken.Lexical ∧ after.feed.length < scanner.feed.length)) := by
  obtain ⟨⟨lineno, first⟩, skipped, hSkip, hLimit, hFeed, hEnd, hShort⟩ :=
    takes_skip quiet.unfailing none scanner quiet.unlimited
  cases first with
  | none =>
    let taken : Token := ⟨.endOfFile, "", max lineno 1⟩
    obtain ⟨listing, hListing, hTrace⟩ := trace_run hLimit _ taken
    refine ⟨taken, { skipped with listing }, ?_, ⟨quiet.unfailing.suffix hFeed, hListing⟩,
      .inl ⟨rfl, hEnd rfl⟩⟩
    rw [next, get_bind, bind_of_ok hSkip]
    exact hTrace
  | some b =>
    obtain ⟨taken, after, hToken, hAfter, hLeft, hLexical⟩ :=
      @token_run skipped ⟨quiet.unfailing.suffix hFeed, hLimit⟩ (max lineno 1) b
    obtain ⟨listing, hListing, hTrace⟩ := trace_run hAfter _ taken
    refine ⟨taken, { after with listing }, ?_,
      ⟨quiet.unfailing.suffix (hLeft.trans hFeed), hListing⟩, .inr ⟨hLexical, ?_⟩⟩
    · rw [next, get_bind, bind_of_ok hSkip]
      simp only
      rw [bind_of_ok hToken]
      exact hTrace
    · exact Nat.lt_of_le_of_lt hLeft.length_le (hShort nofun)

/-! ### The tokens to come -/

/-- The scanner after some tokens. -/
def later (scanner : Scanner) : Nat → Scanner
  | 0 => scanner
  | n + 1 => later scanner.call.2 n

/-- The tokens to come, as a stream. -/
def upcoming (scanner : Scanner) (n : Nat) : Token :=
  match (scanner.later n).call.1 with
  | .ok taken => taken
  | .error _ => ⟨.endOfFile, "", 0⟩

theorem upcoming_zero {scanner after : Scanner} {taken : Token}
    (h : next scanner = .ok taken after) : scanner.upcoming 0 = taken := by
  rw [upcoming, later, call, h]

theorem call_of_next {scanner after : Scanner} {taken : Token}
    (h : next scanner = .ok taken after) : scanner.call.2 = after := by
  rw [call, h]

theorem upcoming_succ {scanner after : Scanner} {taken : Token}
    (h : next scanner = .ok taken after) (n : Nat) :
    scanner.upcoming (n + 1) = after.upcoming n := by
  rw [upcoming, later, call_of_next h, ← upcoming]

theorem quiet_later {scanner : Scanner} (quiet : scanner.Quiet) (n : Nat) :
    (scanner.later n).Quiet := by
  induction n generalizing scanner with
  | zero => exact quiet
  | succ n ih =>
    obtain ⟨taken, after, hNext, hAfter, -⟩ := next_quiet quiet
    rw [later, call_of_next hNext]
    exact ih hAfter

theorem next_later {scanner : Scanner} (quiet : scanner.Quiet) (n : Nat) :
    next (scanner.later n) = .ok (scanner.upcoming n) (scanner.later (n + 1)) := by
  induction n generalizing scanner with
  | zero =>
    obtain ⟨taken, after, hNext, -⟩ := next_quiet quiet
    have hLater : scanner.later 1 = after := call_of_next hNext
    rw [upcoming_zero hNext, hLater]
    exact hNext
  | succ n ih =>
    obtain ⟨taken, after, hNext, hAfter, -⟩ := next_quiet quiet
    have hLater : ∀ m, scanner.later (m + 1) = after.later m := by
      intro m
      rw [later, call_of_next hNext]
    rw [hLater, hLater, upcoming_succ hNext]
    exact ih hAfter

/-- Behind the end there is only the end. -/
theorem upcoming_of_nil {scanner : Scanner} (quiet : scanner.Quiet) (h : scanner.feed = [])
    (n : Nat) : (scanner.upcoming n).kind = .endOfFile := by
  induction n generalizing scanner with
  | zero =>
    obtain ⟨taken, after, hNext, -, ⟨hEnd, -⟩ | ⟨-, hShort⟩⟩ := next_quiet quiet
    · rw [upcoming_zero hNext]
      exact hEnd
    · rw [h] at hShort
      exact nomatch hShort
  | succ n ih =>
    obtain ⟨taken, after, hNext, hAfter, ⟨-, hFeed⟩ | ⟨-, hShort⟩⟩ := next_quiet quiet
    · rw [upcoming_succ hNext]
      exact ih hAfter hFeed
    · rw [h] at hShort
      exact nomatch hShort

/-- **The tokens of a quiet scanner are an ordinary stream**, with no more tokens before its end
than there are readings in the feed. -/
theorem ordinary_upcoming {scanner : Scanner} (quiet : scanner.Quiet) :
    ∃ k ≤ scanner.feed.length, Ordinary scanner.upcoming k := by
  induction hn : scanner.feed.length using Nat.strongRecOn generalizing scanner with
  | ind n ih =>
    obtain ⟨taken, after, hNext, hAfter, ⟨hEnd, hFeed⟩ | ⟨hLexical, hShort⟩⟩ := next_quiet quiet
    · have hAll : ∀ i, (scanner.upcoming i).kind = .endOfFile := by
        intro i
        cases i with
        | zero =>
          rw [upcoming_zero hNext]
          exact hEnd
        | succ i =>
          rw [upcoming_succ hNext]
          exact upcoming_of_nil hAfter hFeed i
      refine ⟨0, Nat.zero_le n, fun i => ⟨fun _ => Nat.zero_le i, fun _ => hAll i⟩, fun i h => ?_⟩
      rw [hAll i] at h
      exact nomatch h
    · obtain ⟨k, hk, ordinary⟩ := ih after.feed.length (by omega) hAfter rfl
      refine ⟨k + 1, by omega, fun i => ?_, fun i => ?_⟩
      · cases i with
        | zero =>
          rw [upcoming_zero hNext]
          exact ⟨fun h => absurd h hLexical.1, fun h => nomatch h⟩
        | succ i =>
          rw [upcoming_succ hNext, ordinary.ends i]
          omega
      · cases i with
        | zero =>
          rw [upcoming_zero hNext]
          exact hLexical.2
        | succ i =>
          rw [upcoming_succ hNext]
          exact ordinary.digits i

theorem drain_run {scanner : Scanner} (quiet : scanner.Quiet) {k : Nat}
    (ordinary : Ordinary scanner.upcoming k) {i bound : Nat} (hi : i ≤ k) (h : k - i < bound) :
    ∃ tokens, Spells scanner.upcoming i tokens k ∧
      drain bound (scanner.later i) =
        .ok (tokens ++ [scanner.upcoming k]) (scanner.later (k + 1)) := by
  induction bound generalizing i with
  | zero => omega
  | succ bound ih =>
    rw [drain, bind_of_ok (next_later quiet i)]
    by_cases hEnd : (scanner.upcoming i).kind = .endOfFile
    · obtain rfl : i = k := Nat.le_antisymm hi ((ordinary.ends i).mp hEnd)
      rw [if_pos hEnd]
      exact ⟨[], rfl, rfl⟩
    · have hik : i < k := ordinary.lt_of_kind rfl hEnd
      obtain ⟨tokens, hSpells, hDrain⟩ := ih (i := i + 1) (by omega) (by omega)
      rw [if_neg hEnd]
      exact ⟨scanner.upcoming i :: tokens, ⟨rfl, hSpells⟩, bind_of_ok hDrain⟩

/-- What a quiet scanner scans: the tokens before the end, and the end. -/
theorem exists_tokens {scanner : Scanner} (quiet : scanner.Quiet) :
    ∃ tokens, tokens.length < scanner.tokenBound ∧ Ordinary scanner.upcoming tokens.length ∧
      Spells scanner.upcoming 0 tokens tokens.length ∧
      (∀ token ∈ tokens, token.kind ≠ .endOfFile) ∧
      drain scanner.tokenBound scanner =
        .ok (tokens ++ [scanner.upcoming tokens.length]) (scanner.later (tokens.length + 1)) := by
  obtain ⟨k, hk, ordinary⟩ := ordinary_upcoming quiet
  have hBound : k < scanner.tokenBound := by
    unfold tokenBound
    omega
  obtain ⟨tokens, hSpells, hDrain⟩ := @drain_run _ quiet _ ordinary 0 scanner.tokenBound
    (Nat.zero_le k) hBound
  obtain rfl : k = tokens.length := hSpells.eq_add.trans (Nat.zero_add _)
  refine ⟨tokens, hBound, ordinary, hSpells, fun token member hEnd => ?_, hDrain⟩
  obtain ⟨n, hn, rfl⟩ := hSpells.exists_of_mem member
  exact Nat.not_le_of_lt hn ((ordinary.ends n).mp hEnd)

/-- A consumer run on a scanner is served from the tokens to come. -/
theorem runOn_of_serve {α : Type} {scanner : Scanner} (quiet : scanner.Quiet)
    {consumer : Consumer α} {i j : Nat} {x : α}
    (h : consumer.serve scanner.upcoming i = .ok (x, j)) :
    consumer.runOn (scanner.later i) = .ok x (scanner.later j) := by
  induction consumer generalizing i with
  | done result =>
    obtain ⟨rfl, rfl⟩ := Prod.mk.inj (Except.ok.inj h)
    rfl
  | ask next ih =>
    rw [Consumer.runOn, bind_of_ok (next_later quiet i)]
    exact ih _ h
  | fail fault => exact nomatch h

end Scanner

end Tiny
