import Mathlib.Order.Monotone.Basic
import Tiny.Proofs.Insertion
import Tiny.Proofs.Reporting

/-!
# Lines are in order

A scanner never goes back, so the lines of its tokens do not decrease: not at the end of the source
either, which is given on the line of a comment that is still open and then, when it is asked for
again, on the last line.  The parser may report a token that it has passed, but it reports it before
it looks at another one, so its reports are in order, too.

* `Scanner.Onward`: a scanner has read on, and every line has arrived or is still to come.
* `next_onward`: the line of a token lies between what had arrived before it and what has arrived
  behind it.
* `sorted_upcoming`, `upcoming_bounded`: so the lines of tokens are in order, and are lines of the
  source.
* `Scanner.program_sorted`: so are the lines of the reports of the parser.
-/

namespace Tiny

/-! ### Lines that arrive -/

namespace Feed

/-- The number of lines that are still to arrive. -/
def lineCount : Feed → Nat
  | [] => 0
  | .line _ :: rest => lineCount rest + 1
  | .byte _ :: rest => lineCount rest
  | .failure _ :: rest => lineCount rest

theorem lineCount_append (feed more : Feed) :
    lineCount (feed ++ more) = lineCount feed + lineCount more := by
  induction feed with
  | nil => exact (Nat.zero_add _).symm
  | cons reading rest ih =>
    cases reading with
    | line line =>
      rw [List.cons_append, lineCount, lineCount, ih]
      omega
    | byte b => exact ih
    | failure reason => exact ih

theorem lineCount_bytes (bytes : List UInt8) : lineCount (bytes.map .byte) = 0 := by
  induction bytes with
  | nil => rfl
  | cons b bytes ih => exact ih

theorem ofLines_cons (line : List UInt8) (lines : List (List UInt8)) :
    ofLines (line :: lines) = .line line :: (line.map .byte ++ ofLines lines) :=
  List.flatMap_cons

theorem lineCount_ofLines (lines : List (List UInt8)) :
    lineCount (ofLines lines) = lines.length := by
  induction lines with
  | nil => rfl
  | cons line lines ih =>
    rw [ofLines_cons, lineCount, lineCount_append, lineCount_bytes, ih, List.length_cons,
      Nat.zero_add]

end Feed

namespace Scanner

/-- From a feed on, with some lines arrived, the scanner has read on. -/
structure Onward (lineno : Nat) (feed : Feed) (after : Scanner) : Prop where
  le : lineno ≤ after.lineno
  total : after.lineno + after.feed.lineCount = lineno + feed.lineCount

section

variable {scanner after : Scanner} {feed rest : Feed}

theorem Onward.trans {lineno : Nat} {middle : Scanner} (h : Onward lineno feed middle)
    (h' : Onward middle.lineno middle.feed after) : Onward lineno feed after :=
  ⟨Nat.le_trans h.le h'.le, h'.total.trans h.total⟩

theorem Onward.byte {lineno : Nat} (h : Onward lineno rest after) (b : UInt8) :
    Onward lineno (.byte b :: rest) after :=
  ⟨h.le, h.total⟩

/-- What holds behind a line that arrives. -/
theorem Onward.arrived {line : List UInt8} {arrived : Scanner}
    (hArrive : arrive line rest scanner = .ok () arrived) (h : Onward arrived.lineno rest after) :
    Onward scanner.lineno (.line line :: rest) after := by
  obtain ⟨-, hLine⟩ := arrive_ok hArrive
  obtain ⟨le, total⟩ := h
  rw [hLine] at le total
  refine ⟨by omega, ?_⟩
  rw [Feed.lineCount]
  omega

/-- Skipping gives a line that arrived meanwhile, or the line of the comment that is open. -/
theorem skip_onward {comment : Option Nat} {found : Nat × Option UInt8} {low : Nat}
    (h : skip comment feed scanner = .ok found after) (hLow : low ≤ scanner.lineno)
    (hComment : ∀ opened ∈ comment, low ≤ opened ∧ opened ≤ scanner.lineno) :
    Onward scanner.lineno feed after ∧ low ≤ found.1 ∧ found.1 ≤ after.lineno := by
  induction feed generalizing comment scanner with
  | nil =>
    obtain ⟨rfl, rfl⟩ := ok_inj h
    refine ⟨⟨Nat.le_refl _, rfl⟩, ?_⟩
    cases comment with
    | none => exact ⟨hLow, Nat.le_refl _⟩
    | some opened => exact hComment opened rfl
  | cons reading rest ih =>
    cases reading with
    | failure reason => cases h
    | line line =>
      obtain ⟨_, arrived, hArrive, h⟩ := bind_eq_ok h
      obtain ⟨-, hLine⟩ := arrive_ok hArrive
      obtain ⟨onward, hFound⟩ := ih h (by omega) fun opened hOpened => by
        have := hComment opened hOpened
        omega
      exact ⟨onward.arrived hArrive, hFound⟩
    | byte b =>
      -- Within a comment its line is kept; a comment that opens is on the line that came last.
      have onByte {comment : Option Nat} (h : skip comment rest scanner = .ok found after)
          (hComment : ∀ opened ∈ comment, low ≤ opened ∧ opened ≤ scanner.lineno) :
          Onward scanner.lineno (.byte b :: rest) after ∧ low ≤ found.1 ∧
            found.1 ≤ after.lineno :=
        ⟨(ih h hLow hComment).1.byte b, (ih h hLow hComment).2⟩
      have hNone : ∀ opened ∈ (none : Option Nat), low ≤ opened ∧ opened ≤ scanner.lineno :=
        fun opened hOpened => absurd hOpened (Option.not_mem_none opened)
      cases comment with
      | some opened =>
        rw [skip] at h
        split at h
        · exact onByte h hNone
        · exact onByte h hComment
      | none =>
        rw [skip, get_bind] at h
        split at h
        · exact onByte h hNone
        split at h
        · refine onByte h fun opened hOpened => ?_
          obtain rfl := Option.some.inj hOpened
          exact ⟨hLow, Nat.le_refl _⟩
        · obtain ⟨rfl, rfl⟩ := ok_inj h
          exact ⟨⟨Nat.le_refl _, rfl⟩, hLow, Nat.le_refl _⟩

theorem takeRun_onward {p : UInt8 → Bool} {run : List UInt8}
    (h : takeRun p feed scanner = .ok run after) : Onward scanner.lineno feed after := by
  induction feed generalizing scanner run with
  | nil =>
    obtain ⟨-, rfl⟩ := ok_inj h
    exact ⟨Nat.le_refl _, rfl⟩
  | cons reading rest ih =>
    cases reading with
    | failure reason => cases h
    | line line =>
      obtain ⟨_, arrived, hArrive, h⟩ := bind_eq_ok h
      exact (ih h).arrived hArrive
    | byte b =>
      rw [takeRun] at h
      split at h
      · obtain ⟨run', _, hRun, h⟩ := bind_eq_ok h
        obtain ⟨-, rfl⟩ := ok_inj h
        exact (ih hRun).byte b
      · obtain ⟨-, rfl⟩ := ok_inj h
        exact ⟨Nat.le_refl _, rfl⟩

theorem takeByte_onward {b : UInt8} {taken : Bool}
    (h : takeByte b feed scanner = .ok taken after) : Onward scanner.lineno feed after := by
  induction feed generalizing scanner with
  | nil =>
    obtain ⟨-, rfl⟩ := ok_inj h
    exact ⟨Nat.le_refl _, rfl⟩
  | cons reading rest ih =>
    cases reading with
    | failure reason => cases h
    | line line =>
      obtain ⟨_, arrived, hArrive, h⟩ := bind_eq_ok h
      exact (ih h).arrived hArrive
    | byte c =>
      rw [takeByte] at h
      split at h
      · obtain ⟨-, rfl⟩ := ok_inj h
        exact ⟨Nat.le_refl _, rfl⟩
      · obtain ⟨-, rfl⟩ := ok_inj h
        exact ⟨Nat.le_refl _, rfl⟩

theorem line_ofRun (kindOf : String → TokenKind) (run : List UInt8) (line : Nat) :
    (Token.ofRun kindOf run line).line = line := by
  unfold Token.ofRun
  split <;> rfl

theorem token_onward {line : Nat} {first : UInt8} {taken : Token}
    (h : token line first scanner = .ok taken after) :
    Onward scanner.lineno scanner.feed after ∧ taken.line = line := by
  unfold token at h
  split at h
  · rw [get_bind] at h
    obtain ⟨run, _, hRun, h⟩ := bind_eq_ok h
    obtain ⟨rfl, rfl⟩ := ok_inj h
    exact ⟨takeRun_onward hRun, line_ofRun _ _ line⟩
  split at h
  · rw [get_bind] at h
    obtain ⟨run, _, hRun, h⟩ := bind_eq_ok h
    obtain ⟨rfl, rfl⟩ := ok_inj h
    exact ⟨takeRun_onward hRun, line_ofRun _ _ line⟩
  split at h
  · rw [get_bind] at h
    obtain ⟨matched, _, hByte, h⟩ := bind_eq_ok h
    cases matched with
    | true =>
      obtain ⟨rfl, rfl⟩ := ok_inj h
      exact ⟨takeByte_onward hByte, rfl⟩
    | false =>
      obtain ⟨rfl, rfl⟩ := ok_inj h
      exact ⟨takeByte_onward hByte, rfl⟩
  · obtain ⟨rfl, rfl⟩ := ok_inj h
    exact ⟨⟨Nat.le_refl _, rfl⟩, rfl⟩

/-- **The line of a token has arrived by the time it is taken**, and not before the token that was
taken last. -/
theorem next_onward {taken : Token} (h : next scanner = .ok taken after) :
    Onward scanner.lineno scanner.feed after ∧
      max scanner.lineno 1 ≤ taken.line ∧ taken.line ≤ max after.lineno 1 := by
  rw [next, get_bind] at h
  obtain ⟨⟨lineno, first⟩, skipped, hSkip, h⟩ := bind_eq_ok h
  obtain ⟨onward, hLow, hHigh⟩ := skip_onward hSkip (Nat.le_refl _)
    fun opened hOpened => absurd hOpened (Option.not_mem_none opened)
  simp only at hLow hHigh h
  cases first with
  | none =>
    obtain ⟨rfl, hFeed, hLine⟩ := trace_ok h
    refine ⟨⟨by rw [hLine]; exact onward.le, by rw [hLine, hFeed]; exact onward.total⟩, ?_⟩
    show _ ≤ max lineno 1 ∧ max lineno 1 ≤ _
    omega
  | some b =>
    obtain ⟨taken', middle, hToken, h⟩ := bind_eq_ok h
    obtain ⟨rfl, hFeed, hLine⟩ := trace_ok h
    obtain ⟨onward', hTaken⟩ := token_onward hToken
    have := onward'.le
    have onward'' := onward.trans onward'
    refine ⟨⟨by rw [hLine]; exact onward''.le, by rw [hLine, hFeed]; exact onward''.total⟩, ?_⟩
    rw [hTaken]
    omega

/-! ### Tokens to come -/

theorem later_onward (quiet : scanner.Quiet) (n : Nat) :
    Onward scanner.lineno scanner.feed (scanner.later n) := by
  induction n with
  | zero => exact ⟨Nat.le_refl _, rfl⟩
  | succ n ih => exact ih.trans (next_onward (next_later quiet n)).1

/-- **The lines of tokens are in order.** -/
theorem sorted_upcoming (quiet : scanner.Quiet) : Monotone fun n => (scanner.upcoming n).line := by
  refine monotone_nat_of_le_succ fun n => ?_
  have hHere := (next_onward (next_later quiet n)).2.2
  have hNext := (next_onward (next_later quiet (n + 1))).2.1
  exact Nat.le_trans hHere hNext

/-- The lines of tokens are lines that have arrived or are to come; before the first line, the
line is 1. -/
theorem upcoming_bounded (quiet : scanner.Quiet) (n : Nat) :
    1 ≤ (scanner.upcoming n).line ∧
      (scanner.upcoming n).line ≤ max 1 (scanner.lineno + scanner.feed.lineCount) := by
  obtain ⟨-, hLow, hHigh⟩ := next_onward (next_later quiet n)
  have hTotal := (later_onward quiet (n + 1)).total
  omega

/-- The outcomes of calls that are made whatever comes. -/
theorem outcomes_calls (scanner : Scanner) (bound : Nat) :
    (scanner.calls (fun _ => true) bound).map Prod.fst =
      (List.range bound).map fun n => (scanner.later n).call.1 := by
  induction bound generalizing scanner with
  | zero => rfl
  | succ bound ih =>
    rw [calls_succ, if_pos rfl, List.map_cons, ih, List.range_succ_eq_map, List.map_cons,
      List.map_map]
    rfl

theorem call_later (quiet : scanner.Quiet) (n : Nat) :
    (scanner.later n).call.1 = .ok (scanner.upcoming n) := by
  rw [call, next_later quiet n]

end

end Scanner

/-! ### Reports -/

theorem Complaint.line_eq {token : Token} {diagnostic : Diagnostic}
    (h : Complaint token diagnostic) : diagnostic.line = token.line := by
  cases h with
  | lexical unknown => rfl
  | grammar text => rfl

namespace Parser

/-- Reports are in the order of their lines, and are made up to a line. -/
structure InOrder (line : Nat) (found : Diagnostics) : Prop where
  sorted : (found.toList.map Diagnostic.line).Pairwise (· ≤ ·)
  range : ∀ diagnostic ∈ found, 1 ≤ diagnostic.line ∧ diagnostic.line ≤ line

theorem inOrder_empty (line : Nat) : InOrder line #[] :=
  ⟨.nil, fun _ hNone => absurd hNone (Array.not_mem_empty _)⟩

theorem InOrder.mono {line line' : Nat} {found : Diagnostics} (h : InOrder line found)
    (hLine : line ≤ line') : InOrder line' found := by
  refine ⟨h.sorted, fun diagnostic member => ?_⟩
  obtain ⟨hLow, hHigh⟩ := h.range diagnostic member
  exact ⟨hLow, Nat.le_trans hHigh hLine⟩

theorem InOrder.push {found : Diagnostics} {diagnostic : Diagnostic}
    (h : InOrder diagnostic.line found) (hLow : 1 ≤ diagnostic.line) :
    InOrder diagnostic.line (found.push diagnostic) := by
  refine ⟨?_, fun other hOther => ?_⟩
  · rw [Array.toList_push, List.map_append, List.map_singleton]
    refine List.pairwise_append.mpr ⟨h.sorted, List.pairwise_singleton _ _, ?_⟩
    intro line hLine last hLast
    obtain ⟨earlier, member, rfl⟩ := List.mem_map.mp hLine
    obtain rfl := List.mem_singleton.mp hLast
    exact (h.range earlier (Array.mem_toList_iff.mp member)).2
  · rcases Array.mem_push.mp hOther with hOther | rfl
    · exact h.range other hOther
    · exact ⟨hLow, Nat.le_refl _⟩

/-- If the lines of tokens are in order, then so are the reports about them, up to the token at
hand. -/
theorem invariant_inOrder {stream : Nat → Token} (hSorted : Monotone fun n => (stream n).line)
    (hLow : ∀ n, 1 ≤ (stream n).line) :
    Invariant stream fun i found => InOrder (stream i).line found := by
  refine ⟨fun {i found} held => held.mono (hSorted (Nat.le_succ i)),
    fun {i found diagnostic} held complaint => ?_⟩
  have hLine := complaint.line_eq
  rw [← hLine] at held ⊢
  exact held.push (hLine ▸ hLow i)

end Parser

/-- **Lines are in order.**  The tokens that a scanner gives, however often it is asked, are on
lines that do not decrease, and so are the reports of the parser.  All of them are on lines of the
source; if that has none, on line 1. -/
theorem Scanner.program_sorted (bytes : List UInt8) (written : ByteArray) (options : Options) :
    let scanner : Scanner := { feed := .ofBytes bytes, listing := { written }, options }
    let lines := (Feed.splitLines bytes).length
    (∀ bound, ∃ tokens : List Token,
      (scanner.calls (fun _ => true) bound).map Prod.fst = tokens.map .ok ∧
        tokens.length = bound ∧ (tokens.map Token.line).Pairwise (· ≤ ·) ∧
        ∀ token ∈ tokens, 1 ≤ token.line ∧ token.line ≤ max 1 lines) ∧
      ∃ tree found parsed, Scanner.program scanner = .ok (tree, found) parsed ∧
        (found.toList.map Diagnostic.line).Pairwise (· ≤ ·) ∧
        ∀ diagnostic ∈ found, 1 ≤ diagnostic.line ∧ diagnostic.line ≤ max 1 lines := by
  intro scanner lines
  have quiet : scanner.Quiet := ⟨Feed.unfailing_ofBytes bytes, rfl⟩
  have hSorted := sorted_upcoming quiet
  have hRange : ∀ n, 1 ≤ (scanner.upcoming n).line ∧ (scanner.upcoming n).line ≤ max 1 lines := by
    intro n
    have hBounded := upcoming_bounded quiet n
    have hTotal : scanner.lineno + scanner.feed.lineCount = lines :=
      (Nat.zero_add _).trans (Feed.lineCount_ofLines _)
    rwa [hTotal] at hBounded
  refine ⟨fun bound => ⟨(List.range bound).map scanner.upcoming, ?_, ?_, ?_, ?_⟩, ?_⟩
  · rw [outcomes_calls, List.map_map]
    exact List.map_congr_left fun n _ => call_later quiet n
  · rw [List.length_map, List.length_range]
  · rw [List.map_map, List.pairwise_map]
    exact List.pairwise_lt_range.imp fun h => hSorted (Nat.le_of_lt h)
  · intro token member
    obtain ⟨n, -, rfl⟩ := List.mem_map.mp member
    exact hRange n
  · obtain ⟨_, _, tree, found, j, -, -, -, hServe, -⟩ := Scanner.exists_parse quiet
    have inv := Parser.invariant_inOrder hSorted fun n => (hRange n).1
    obtain ⟨k, -, inOrder⟩ := inv.parse hServe (Parser.inOrder_empty _)
    refine ⟨tree, found, _, runOn_of_serve quiet hServe, inOrder.sorted, ?_⟩
    intro diagnostic member
    obtain ⟨hLow, hHigh⟩ := inOrder.range diagnostic member
    exact ⟨hLow, Nat.le_trans hHigh (hRange k).2⟩

end Tiny
