import Tiny.Proofs.Division
import Tiny.Proofs.Scanning

/-!
# The tokens are those of the division

A scanner reads its source line by line and looks one byte ahead.  Nevertheless the tokens that it
gives are those of the division of the whole source, each on its line.

* `Scanner.Holds`: what a scanner is still to read, with the lines of all bytes.
* `holds_ofBytes`: a new scanner holds its source.
* `skip_gap`, `takeRun_maximal`, `takeByte_head`: what the parts of a scanner take.
* `next_part`: a token is the first part of what is held, or there is none.
* `calls_tokens`: so the calls of a scanner give the tokens of the division.
-/

namespace Tiny

open Feed

/-! ### Lines of bytes -/

namespace Feed

/-- The bytes of a feed with their lines, if `lineno` lines have arrived. -/
def numbered (lineno : Nat) : Feed → List (UInt8 × Nat)
  | [] => []
  | .line _ :: rest => numbered (lineno + 1) rest
  | .byte b :: rest => (b, lineno) :: numbered lineno rest
  | .failure _ :: rest => numbered lineno rest

theorem numbered_append (lineno : Nat) (bytes : List UInt8) (rest : Feed) :
    numbered lineno (bytes.map .byte ++ rest) =
      bytes.map (·, lineno) ++ numbered lineno rest := by
  induction bytes with
  | nil => rfl
  | cons b bytes ih => exact congrArg (List.cons _) ih

theorem numbered_ofLines_cons (lineno : Nat) (line : List UInt8) (lines : List (List UInt8)) :
    (ofLines (line :: lines)).numbered lineno =
      line.map (·, lineno + 1) ++ (ofLines lines).numbered (lineno + 1) := by
  rw [ofLines, List.flatMap_cons]
  exact numbered_append (lineno + 1) line (ofLines lines)

end Feed

/-- Bytes behind `before` with their lines. -/
def numberFrom (before : List UInt8) : List UInt8 → List (UInt8 × Nat)
  | [] => []
  | b :: rest => (b, 1 + before.count lineFeed) :: numberFrom (before ++ [b]) rest

theorem numberFrom_append {line : List UInt8} (h : lineFeed ∉ line) (before rest : List UInt8) :
    numberFrom before (line ++ rest) =
      line.map (·, 1 + before.count lineFeed) ++ numberFrom (before ++ line) rest := by
  induction line generalizing before with
  | nil => rw [List.append_nil]; rfl
  | cons b line ih =>
    obtain ⟨hb, hLine⟩ := not_or.mp (mt List.mem_cons.mpr h)
    have hCount : (before ++ [b]).count lineFeed = before.count lineFeed := by
      rw [List.count_append, List.count_singleton, if_neg (by simpa using Ne.symm hb)]
      rfl
    rw [List.cons_append, numberFrom, ih hLine, hCount, List.map_cons, List.cons_append,
      List.append_assoc, List.singleton_append]

theorem count_append_lineFeed (before : List UInt8) :
    (before ++ [lineFeed]).count lineFeed = before.count lineFeed + 1 := by
  rw [List.count_append, List.count_singleton_self]

/-- A source in lines has every byte on its line.  The bytes of the line that is being collected are
given in reverse. -/
theorem numbered_splitFrom {line : List UInt8} (h : lineFeed ∉ line) (before bytes : List UInt8) :
    (ofLines (splitFrom line bytes)).numbered (before.count lineFeed) =
      numberFrom before (line.reverse ++ bytes) := by
  have hLine : lineFeed ∉ line.reverse := fun member => h (List.mem_reverse.mp member)
  induction bytes generalizing line before with
  | nil =>
    rw [splitFrom]
    split
    next hEmpty =>
      obtain rfl := List.isEmpty_iff.mp hEmpty
      rfl
    next =>
      rw [numberFrom_append hLine, Nat.add_comm 1]
      exact numbered_ofLines_cons _ line.reverse []
  | cons b bytes ih =>
    rw [splitFrom]
    split
    next hFeed =>
      subst hFeed
      have hRest := @ih [] List.not_mem_nil (before ++ line.reverse ++ [lineFeed])
        List.not_mem_nil
      have hCount : (before ++ line.reverse).count lineFeed = before.count lineFeed := by
        rw [List.count_append, List.count_eq_zero.mpr hLine, Nat.add_zero]
      rw [count_append_lineFeed, hCount] at hRest
      rw [numbered_ofLines_cons, hRest, numberFrom_append hLine, numberFrom, hCount,
        List.reverse_cons, List.map_append, List.append_assoc, Nat.add_comm 1]
      rfl
    next hOther =>
      have hNext : lineFeed ∉ b :: line := by
        intro member
        rcases List.mem_cons.mp member with hb | member
        · exact hOther hb.symm
        · exact h member
      rw [ih hNext before (fun member => hNext (List.mem_reverse.mp member)), List.reverse_cons,
        List.append_assoc, List.singleton_append]

/-! ### Gaps from the front -/

theorem LastGap.behind {last : List UInt8} (h : LastGap last) (front : List UInt8)
    (hGap : ∀ gap, Gap gap → Gap (front ++ gap)) : LastGap (front ++ last) := by
  cases h with
  | closed gaps => exact .closed (hGap _ gaps)
  | opened gaps inside =>
    rw [← List.append_assoc]
    exact .opened (hGap _ gaps) inside

/-- A gap with one more byte in the comment that it starts with. -/
theorem Gap.inside {gap : List UInt8} {b : UInt8} (h : Gap (commentOpen :: gap))
    (hb : b ≠ commentClose) : Gap (commentOpen :: b :: gap) := by
  generalize hBytes : commentOpen :: gap = bytes at h
  cases h with
  | nil => cases hBytes
  | blank isSpace tail =>
    rw [← (List.cons.inj hBytes).1, isSpaceByte_commentOpen] at isSpace
    cases isSpace
  | @comment body rest inside tail =>
    rw [(List.cons.inj hBytes).2, ← List.cons_append]
    refine .comment (fun member => ?_) tail
    rcases List.mem_cons.mp member with rfl | member
    · exact hb rfl
    · exact inside member

theorem LastGap.inside {last : List UInt8} {b : UInt8} (h : LastGap (commentOpen :: last))
    (hb : b ≠ commentClose) : LastGap (commentOpen :: b :: last) := by
  generalize hBytes : commentOpen :: last = bytes at h
  cases h with
  | closed gaps =>
    subst hBytes
    exact .closed (gaps.inside hb)
  | @opened gap body gaps inside =>
    cases gap with
    | nil =>
      obtain rfl := (List.cons.inj hBytes).2
      refine @LastGap.opened [] (b :: last) .nil fun member => ?_
      rcases List.mem_cons.mp member with rfl | member
      · exact hb rfl
      · exact inside member
    | cons c gap =>
      obtain ⟨rfl, rfl⟩ := List.cons.inj hBytes
      exact @LastGap.opened (commentOpen :: b :: gap) body (gaps.inside hb) inside

namespace Scanner

/-- The scanner is still to read some bytes, which stand behind `before` in its source. -/
def Holds (scanner : Scanner) (before bytes : List UInt8) : Prop :=
  scanner.feed.numbered scanner.lineno = numberFrom before bytes

theorem holds_ofBytes (bytes : List UInt8) (listing : Sink) (options : Options) :
    Holds { feed := .ofBytes bytes, listing, options } [] bytes :=
  @numbered_splitFrom [] (fun h => nomatch h) [] bytes

/-! ### Skipping -/

theorem write_ok {text : String} {scanner after : Scanner}
    (h : write text scanner = .ok () after) :
    after.feed = scanner.feed ∧ after.lineno = scanner.lineno := by
  unfold write Focus.on at h
  split at h
  · obtain ⟨-, rfl⟩ := ok_inj h
    exact ⟨rfl, rfl⟩
  · cases h

theorem arrive_ok {line : List UInt8} {rest : Feed} {scanner after : Scanner}
    (h : arrive line rest scanner = .ok () after) :
    after.feed = rest ∧ after.lineno = scanner.lineno + 1 := by
  obtain ⟨_, arrived, hArrived, h⟩ := bind_eq_ok h
  obtain ⟨-, rfl⟩ := ok_inj hArrived
  rw [get_bind] at h
  split at h
  · exact write_ok h
  · obtain ⟨-, rfl⟩ := ok_inj h
    exact ⟨rfl, rfl⟩

theorem numbered_byte {b : UInt8} {rest : Feed} {lineno : Nat} {before bytes : List UInt8}
    (h : numbered lineno (.byte b :: rest) = numberFrom before bytes) :
    ∃ left, bytes = b :: left ∧ lineno = 1 + before.count lineFeed ∧
      rest.numbered lineno = numberFrom (before ++ [b]) left := by
  cases bytes with
  | nil => cases h
  | cons c left =>
    obtain ⟨hFirst, hRest⟩ := List.cons.inj h
    obtain ⟨rfl, hLine⟩ := Prod.mk.inj hFirst
    exact ⟨left, rfl, hLine, hRest⟩

theorem eq_nil_of_numberFrom {before bytes : List UInt8} (h : [] = numberFrom before bytes) :
    bytes = [] := by
  cases bytes with
  | nil => rfl
  | cons b bytes => cases h

/-- The start of a comment that is being skipped. -/
def pending : Option Nat → List UInt8
  | none => []
  | some _ => [commentOpen]

/-- What was found behind a gap: a byte, with the line on which it stands, or nothing. -/
def Found (comment : Option Nat) (before bytes : List UInt8) (after : Scanner) :
    Nat × Option UInt8 → Prop
  | (lineno, some b) => ∃ gap rest, bytes = gap ++ b :: rest ∧ Gap (pending comment ++ gap) ∧
      Solid b ∧ lineno = 1 + (before ++ gap).count lineFeed ∧ after.Holds (before ++ gap ++ [b]) rest
  | (_, none) => LastGap (pending comment ++ bytes)

/-- What is found behind a byte is found from that byte on, if the byte belongs to the gap. -/
theorem Found.cons {comment comment' : Option Nat} {before bytes : List UInt8} {after : Scanner}
    {found : Nat × Option UInt8} {b : UInt8} (h : Found comment' (before ++ [b]) bytes after found)
    (hGap : ∀ gap, Gap (pending comment' ++ gap) → Gap (pending comment ++ b :: gap))
    (hLast : ∀ rest, LastGap (pending comment' ++ rest) → LastGap (pending comment ++ b :: rest)) :
    Found comment before (b :: bytes) after found := by
  obtain ⟨lineno, first⟩ := found
  cases first with
  | none => exact hLast bytes h
  | some c =>
    obtain ⟨gap, rest, rfl, gaps, solid, hLine, holds⟩ := h
    rw [List.append_assoc before, List.singleton_append] at hLine holds
    exact ⟨b :: gap, rest, rfl, hGap gap gaps, solid, hLine, holds⟩

/-- Skipping takes a gap. -/
theorem skip_gap {comment : Option Nat} {feed : Feed} {scanner after : Scanner}
    {found : Nat × Option UInt8} (h : skip comment feed scanner = .ok found after)
    {before bytes : List UInt8} (holds : feed.numbered scanner.lineno = numberFrom before bytes) :
    Found comment before bytes after found := by
  induction feed generalizing comment scanner before bytes with
  | nil =>
    obtain rfl := eq_nil_of_numberFrom holds
    obtain ⟨rfl, -⟩ := ok_inj h
    cases comment with
    | none => exact .closed .nil
    | some opened => exact .opened .nil List.not_mem_nil
  | cons reading rest ih =>
    cases reading with
    | failure reason => cases h
    | line line =>
      obtain ⟨_, arrived, hArrive, h⟩ := bind_eq_ok h
      obtain ⟨-, hLine⟩ := arrive_ok hArrive
      refine ih h ?_
      rw [hLine]
      exact holds
    | byte b =>
      obtain ⟨left, rfl, hLine, hRest⟩ := numbered_byte holds
      cases comment with
      | some opened =>
        rw [skip] at h
        split at h
        next hClose =>
          subst hClose
          have hEmpty : ∀ gap, Gap gap → Gap ([commentOpen, commentClose] ++ gap) :=
            fun gap gaps => @Gap.comment [] gap List.not_mem_nil gaps
          exact (ih h hRest).cons hEmpty (fun rest ends => ends.behind _ hEmpty)
        next hOther =>
          exact (ih h hRest).cons (fun gap gaps => gaps.inside hOther)
            (fun rest ends => ends.inside hOther)
      | none =>
        rw [skip, get_bind] at h
        split at h
        next isSpace =>
          have hBlank : ∀ gap, Gap gap → Gap ([b] ++ gap) := fun gap gaps => .blank isSpace gaps
          exact (ih h hRest).cons hBlank (fun rest ends => ends.behind _ hBlank)
        next noSpace =>
        split at h
        next hOpen =>
          subst hOpen
          exact (ih h hRest).cons (fun gap gaps => gaps) (fun rest ends => ends)
        next hOther =>
          obtain ⟨rfl, rfl⟩ := ok_inj h
          refine ⟨[], left, rfl, .nil, ⟨Bool.eq_false_iff.mpr noSpace, hOther⟩, ?_, ?_⟩
          · rw [List.append_nil]
            exact hLine
          · rw [List.append_nil]
            exact hRest

/-! ### Tokens -/

/-- A run is taken as far as it goes. -/
theorem takeRun_maximal {p : UInt8 → Bool} {feed : Feed} {scanner after : Scanner}
    {run : List UInt8} (h : takeRun p feed scanner = .ok run after) {before bytes : List UInt8}
    (holds : feed.numbered scanner.lineno = numberFrom before bytes) :
    ∃ rest, bytes = run ++ rest ∧ (∀ b ∈ run, p b = true) ∧ (∀ b ∈ rest.head?, p b = false) ∧
      after.Holds (before ++ run) rest := by
  induction feed generalizing scanner run before bytes with
  | nil =>
    obtain rfl := eq_nil_of_numberFrom holds
    obtain ⟨rfl, rfl⟩ := ok_inj h
    exact ⟨[], rfl, fun _ member => (nomatch member), fun _ hb => (nomatch hb), rfl⟩
  | cons reading rest ih =>
    cases reading with
    | failure reason => cases h
    | line line =>
      obtain ⟨_, arrived, hArrive, h⟩ := bind_eq_ok h
      obtain ⟨-, hLine⟩ := arrive_ok hArrive
      refine ih h ?_
      rw [hLine]
      exact holds
    | byte b =>
      obtain ⟨left, rfl, hLine, hRest⟩ := numbered_byte holds
      rw [takeRun] at h
      split at h
      next hb =>
        obtain ⟨run', _, hRun, h⟩ := bind_eq_ok h
        obtain ⟨rfl, rfl⟩ := ok_inj h
        obtain ⟨rest', rfl, hAll, hEnds, holds'⟩ := ih hRun hRest
        rw [List.append_assoc, List.singleton_append] at holds'
        exact ⟨rest', rfl, List.forall_mem_cons.mpr ⟨hb, hAll⟩, hEnds, holds'⟩
      next hb =>
        obtain ⟨rfl, rfl⟩ := ok_inj h
        refine ⟨b :: left, rfl, fun _ member => (nomatch member), fun c hc => ?_, ?_⟩
        · obtain rfl : b = c := Option.some.inj hc
          exact Bool.eq_false_iff.mpr hb
        · rw [List.append_nil]
          exact holds

/-- One byte is taken if it comes next. -/
theorem takeByte_head {b : UInt8} {feed : Feed} {scanner after : Scanner} {taken : Bool}
    (h : takeByte b feed scanner = .ok taken after) {before bytes : List UInt8}
    (holds : feed.numbered scanner.lineno = numberFrom before bytes) :
    if taken then ∃ rest, bytes = b :: rest ∧ after.Holds (before ++ [b]) rest
    else bytes.head? ≠ some b ∧ after.Holds before bytes := by
  induction feed generalizing scanner with
  | nil =>
    obtain rfl := eq_nil_of_numberFrom holds
    obtain ⟨rfl, rfl⟩ := ok_inj h
    exact ⟨nofun, rfl⟩
  | cons reading rest ih =>
    cases reading with
    | failure reason => cases h
    | line line =>
      obtain ⟨_, arrived, hArrive, h⟩ := bind_eq_ok h
      obtain ⟨-, hLine⟩ := arrive_ok hArrive
      refine ih h ?_
      rw [hLine]
      exact holds
    | byte c =>
      obtain ⟨left, rfl, hLine, hRest⟩ := numbered_byte holds
      rw [takeByte] at h
      split at h
      next hb =>
        obtain ⟨rfl, rfl⟩ := ok_inj h
        subst hb
        exact ⟨left, rfl, hRest⟩
      next hb =>
        obtain ⟨rfl, rfl⟩ := ok_inj h
        exact ⟨fun hHead => hb (Option.some.inj hHead), holds⟩

/-- A token that starts with `first` is a piece of the bytes from `first` on. -/
theorem token_piece {line : Nat} {first : UInt8} {scanner after : Scanner} {taken : Token}
    (h : token line first scanner = .ok taken after) {before bytes : List UInt8}
    (holds : scanner.Holds (before ++ [first]) bytes) (solid : Solid first)
    (parted : Parted before (first :: bytes)) (gap : List UInt8) :
    ∃ run kind rest, first :: bytes = run ++ rest ∧ Piece before rest run kind ∧
      taken = (Part.mk gap run kind).token line ∧ after.Holds (before ++ run) rest := by
  unfold token at h
  split at h
  next hDigit =>
    rw [get_bind] at h
    obtain ⟨run, _, hRun, h⟩ := bind_eq_ok h
    obtain ⟨rfl, rfl⟩ := ok_inj h
    obtain ⟨rest, rfl, hAll, hEnds, held⟩ := takeRun_maximal hRun holds
    rw [List.append_assoc, List.singleton_append] at held
    have digits := parted.maximal (.inl rfl) (List.forall_mem_cons.mpr ⟨hDigit, hAll⟩) hEnds
    exact ⟨first :: run, _, rest, rfl, .number digits, rfl, held⟩
  next hDigit =>
  split at h
  next hLetter =>
    rw [get_bind] at h
    obtain ⟨run, _, hRun, h⟩ := bind_eq_ok h
    obtain ⟨rfl, rfl⟩ := ok_inj h
    obtain ⟨rest, rfl, hAll, hEnds, held⟩ := takeRun_maximal hRun holds
    rw [List.append_assoc, List.singleton_append] at held
    have letters := parted.maximal (.inr rfl) (List.forall_mem_cons.mpr ⟨hLetter, hAll⟩) hEnds
    exact ⟨first :: run, _, rest, rfl, piece_word letters, rfl, held⟩
  next hLetter =>
  split at h
  next hColon =>
    subst hColon
    rw [get_bind] at h
    obtain ⟨matched, _, hByte, h⟩ := bind_eq_ok h
    have hHead := takeByte_head hByte holds
    cases matched with
    | true =>
      obtain ⟨rfl, rfl⟩ := ok_inj h
      obtain ⟨rest, rfl, held⟩ := hHead
      rw [List.append_assoc, List.singleton_append] at held
      exact ⟨[colon, equalSign], _, rest, rfl, .assign, rfl, held⟩
    | false =>
      obtain ⟨rfl, rfl⟩ := ok_inj h
      obtain ⟨alone, held⟩ := hHead
      exact ⟨[colon], _, bytes, rfl, .lone alone, rfl, held⟩
  next hColon =>
    obtain ⟨rfl, rfl⟩ := ok_inj h
    exact ⟨[first], _, bytes, rfl, piece_byte solid (Bool.eq_false_iff.mpr hDigit)
      (Bool.eq_false_iff.mpr hLetter) hColon, rfl, holds⟩

theorem trace_ok {text : String} {taken taken' : Token} {scanner after : Scanner}
    (h : (do
        if (← get).options.traceScan then write text
        return taken : Scan Token) scanner = .ok taken' after) :
    taken' = taken ∧ after.feed = scanner.feed ∧ after.lineno = scanner.lineno := by
  rw [get_bind] at h
  split at h
  · obtain ⟨_, written, hWrite, h⟩ := bind_eq_ok h
    obtain ⟨rfl, rfl⟩ := ok_inj h
    exact ⟨rfl, write_ok hWrite⟩
  · obtain ⟨rfl, rfl⟩ := ok_inj h
    exact ⟨rfl, rfl, rfl⟩

/-- **A token is the first part of what the scanner holds**, or there is no part left. -/
theorem next_part {scanner after : Scanner} {taken : Token}
    (h : next scanner = .ok taken after) {before bytes : List UInt8}
    (holds : scanner.Holds before bytes) (parted : Parted before bytes) :
    (taken.kind = .endOfFile ∧ LastGap bytes) ∨
    ∃ (part : Part) (rest : List UInt8), bytes = part.gap ++ (part.bytes ++ rest) ∧ Gap part.gap ∧
      Piece (before ++ part.gap) rest part.bytes part.kind ∧
      taken = part.token (1 + (before ++ part.gap).count lineFeed) ∧
      after.Holds (before ++ (part.gap ++ part.bytes)) rest := by
  rw [next, get_bind] at h
  obtain ⟨⟨lineno, first⟩, skipped, hSkip, h⟩ := bind_eq_ok h
  have hFound := skip_gap hSkip holds
  cases first with
  | none =>
    obtain ⟨rfl, -⟩ := trace_ok h
    exact .inl ⟨rfl, hFound⟩
  | some b =>
    obtain ⟨gap, rest, rfl, gaps, solid, rfl, held⟩ := hFound
    obtain ⟨taken', middle, hToken, h⟩ := bind_eq_ok h
    obtain ⟨rfl, hFeed, hLine⟩ := trace_ok h
    rw [Nat.max_eq_left (Nat.le_add_right 1 _)] at hToken
    obtain ⟨run, kind, left, hSplit, piece, rfl, held⟩ :=
      token_piece hToken held solid (parted.gap gaps) gap
    refine .inr ⟨⟨gap, run, kind⟩, left, by rw [hSplit], gaps, piece, rfl, ?_⟩
    rw [Holds, hFeed, hLine, ← List.append_assoc]
    exact held

/-! ### All tokens -/

/-- The calls of a scanner give the tokens of a division of what it holds, and then the end. -/
theorem calls_division {scanner : Scanner} (quiet : scanner.Quiet) {before bytes : List UInt8}
    (holds : scanner.Holds before bytes) (parted : Parted before bytes) :
    ∃ parts last ending, Divides before parts last bytes ∧ ending.kind = .endOfFile ∧
      ∀ bound, scanner.feed.length < bound →
        (scanner.calls isOpen bound).map Prod.fst =
          (Part.tokens before parts ++ [ending]).map .ok := by
  induction hn : scanner.feed.length using Nat.strongRecOn generalizing scanner before bytes with
  | ind n ih =>
    subst hn
    obtain ⟨taken, after, hNext, hAfter, hCases⟩ := next_quiet quiet
    have hCall : scanner.call = (.ok taken, after) := by rw [call, hNext]
    rcases next_part hNext holds parted with ⟨hEnd, ends⟩ | ⟨part, rest, rfl, gaps, piece, rfl, held⟩
    · refine ⟨[], bytes, taken, ⟨rfl, ends⟩, hEnd, fun bound hBound => ?_⟩
      obtain ⟨bound, rfl⟩ : ∃ m, bound = m + 1 := ⟨bound - 1, by omega⟩
      simp only [calls, hCall, isOpen, hEnd]
      rfl
    · have hOpen := Part.token_kind_ne piece.kind_ne (1 + (before ++ part.gap).count lineFeed)
      have hShort : after.feed.length < scanner.feed.length := by
        rcases hCases with ⟨hEnd, -⟩ | ⟨-, hShort⟩
        · exact absurd hEnd hOpen
        · exact hShort
      have hParted := piece.parted
      rw [List.append_assoc] at hParted
      obtain ⟨parts, last, ending, divides, hEnd, hCalls⟩ :=
        ih after.feed.length hShort hAfter held hParted rfl
      refine ⟨part :: parts, last, ending, ⟨rest, rfl, gaps, piece, divides⟩, hEnd,
        fun bound hBound => ?_⟩
      obtain ⟨bound, rfl⟩ : ∃ m, bound = m + 1 := ⟨bound - 1, by omega⟩
      have hGoesOn : isOpen (.ok (part.token (1 + (before ++ part.gap).count lineFeed))) = true :=
        bne_iff_ne.mpr hOpen
      simp only [calls, hCall, if_pos hGoesOn, List.map_cons, hCalls bound (by omega), Part.tokens,
        List.cons_append]

/-- **The tokens of a source are those of its division.**  The source is divided in one way.  The
calls of a scanner come to an end; they give the tokens of the parts and then, once, the end of the
source.  No byte is left out or used twice, and names that were written differently are different
identifiers. -/
theorem calls_tokens (bytes : List UInt8) (written : ByteArray) (options : Options) :
    let scanner : Scanner := { feed := .ofBytes bytes, listing := { written }, options }
    ∃ parts last ending,
      Divides [] parts last bytes ∧
      (∀ parts' last', Divides [] parts' last' bytes → parts' = parts ∧ last' = last) ∧
      (∀ bound, scanner.tokenBound ≤ bound →
        (scanner.calls isOpen bound).map Prod.fst = (Part.tokens [] parts ++ [ending]).map .ok) ∧
      ending.kind = .endOfFile ∧ (∀ token ∈ Part.tokens [] parts, token.kind ≠ .endOfFile) ∧
      bytes = (parts.flatMap fun part => part.gap ++ part.bytes) ++ last ∧
      ∀ part ∈ parts, ∀ part' ∈ parts, ∀ line line' : Nat,
        (part.token line).kind = .identifier → (part'.token line').kind = .identifier →
        (part.token line).lexeme = (part'.token line').lexeme → part.bytes = part'.bytes := by
  intro scanner
  obtain ⟨parts, last, ending, divides, hEnd, hCalls⟩ := @calls_division scanner
    ⟨Feed.unfailing_ofBytes bytes, rfl⟩ [] bytes (holds_ofBytes bytes _ options) (parted_nil bytes)
  refine ⟨parts, last, ending, divides, fun parts' last' divides' => divides'.unique divides,
    fun bound hBound => hCalls bound hBound, hEnd, divides.kind_ne, divides.eq_flatMap, ?_⟩
  intro part _ part' _ line line' h h' same
  exact identifier_bytes h h' same

end Scanner

end Tiny
